import Mathlib.Data.Nat.Bitwise
import Mathlib.Data.List.Basic
import Mathlib.Tactic.Common
/-!
# Sets of bits in bytes

A list of bytes as the set of its bits: bit `k` is bit `k % 8` of byte `k / 8`.
A filter into which the bits of every member are put rejects no member.
-/

namespace BitFilter

/-- Bit `k` is set. -/
def Has (bytes : List UInt8) (k : Nat) : Prop := ∃ b, bytes[k / 8]? = some b ∧ b.toNat.testBit (k % 8) = true

/-- Bit `k` is set, if it is inside the bytes. -/
def put (k : Nat) (bytes : List UInt8) : Option (List UInt8) :=
  (bytes[k / 8]?).map fun b => bytes.set (k / 8) (b ||| UInt8.ofNat (1 <<< (k % 8)))

/-- All of these are set, one after the other. -/
def putAll : List Nat → List UInt8 → Option (List UInt8)
  | [], bytes => some bytes
  | k :: ks, bytes => (put k bytes).bind (putAll ks)

variable {bytes bytes' : List UInt8} {ks : List Nat} {j k : Nat}

theorem put_defined (h : k / 8 < bytes.length) : ∃ bytes', put k bytes = some bytes' :=
  ⟨_, by rw [put, List.getElem?_eq_getElem h, Option.map_some]⟩

theorem length_put (h : put k bytes = some bytes') : bytes'.length = bytes.length := by
  obtain ⟨b, -, rfl⟩ := Option.map_eq_some_iff.mp h
  exact List.length_set

/-- The byte of one bit. -/
theorem testBit_mask (hj : j < 8) : (UInt8.ofNat (1 <<< k)).toNat.testBit j = decide (k = j) := by
  rw [UInt8.toNat_ofNat', Nat.shiftLeft_eq, Nat.one_mul, Nat.testBit_mod_two_pow, Nat.testBit_two_pow, decide_eq_true hj,
    Bool.true_and]

/-- Bit `k`, and the bits that were set. -/
theorem has_put (h : put k bytes = some bytes') : Has bytes' j ↔ j = k ∨ Has bytes j := by
  obtain ⟨b, hb, rfl⟩ := Option.map_eq_some_iff.mp h
  obtain ⟨hlt, -⟩ := List.getElem?_eq_some_iff.mp hb
  have hbit : j % 8 < 8 := Nat.mod_lt j (by decide)
  rw [Has, Has, List.getElem?_set]
  by_cases hbyte : k / 8 = j / 8
  · rw [if_pos hbyte, if_pos hlt, ← hbyte, hb]
    simp only [Option.some_inj, exists_eq_left', UInt8.toNat_or, Nat.testBit_or, testBit_mask hbit, Bool.or_eq_true,
      decide_eq_true_eq]
    constructor
    · rintro (hold | hnew)
      · exact .inr hold
      · exact .inl (by omega)
    · rintro (rfl | hold)
      · exact .inr rfl
      · exact .inl hold
  · rw [if_neg hbyte]
    have hne : j ≠ k := fun heq => hbyte (by rw [heq])
    exact ⟨.inr, fun h => h.resolve_left hne⟩

theorem putAll_append (ks ks' : List Nat) (bytes : List UInt8) :
    putAll (ks ++ ks') bytes = (putAll ks bytes).bind (putAll ks') := by
  induction ks generalizing bytes with
  | nil => rfl
  | cons k ks ih =>
    rw [List.cons_append, putAll, putAll, Option.bind_assoc]
    congr 1
    funext bytes'
    exact ih bytes'

/-- Bits that are inside can all be set, and the set bits are these and the ones before. -/
theorem putAll_spec (hin : ∀ k ∈ ks, k / 8 < bytes.length) :
    ∃ bytes', putAll ks bytes = some bytes' ∧ bytes'.length = bytes.length ∧ ∀ j, Has bytes' j ↔ j ∈ ks ∨ Has bytes j := by
  induction ks generalizing bytes with
  | nil => exact ⟨bytes, rfl, rfl, fun j => by rw [List.mem_nil_iff, false_or]⟩
  | cons k ks ih =>
    obtain ⟨hk, hks⟩ := List.forall_mem_cons.mp hin
    obtain ⟨bytes₁, h₁⟩ := put_defined hk
    obtain ⟨bytes', h', hlength, hhas⟩ := ih fun k hk => by rw [length_put h₁]; exact hks k hk
    refine ⟨bytes', by rw [putAll, h₁, Option.bind_some, h'], hlength.trans (length_put h₁), fun j => ?_⟩
    rw [hhas, has_put h₁, List.mem_cons, or_left_comm, or_assoc]

/-- A bit below `8 * n` is one of the first `n` bytes. -/
theorem has_take {n : Nat} (hk : k < 8 * n) : Has (bytes.take n) k ↔ Has bytes k := by
  rw [Has, Has, List.getElem?_take_of_lt (by omega)]

end BitFilter
