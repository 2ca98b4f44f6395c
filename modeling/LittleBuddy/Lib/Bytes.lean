import Mathlib.Algebra.Group.Nat.Defs
import Mathlib.Data.List.Basic
import Mathlib.Tactic.Common
/-!
# Numbers and records as bytes

Little-endian numbers, and reading a part of a record out of memory.
-/

namespace Bytes

/-- The lowest `n` bytes of `v`, the lowest first. -/
def leBytes : Nat → Nat → List UInt8
  | 0, _ => []
  | n + 1, v => UInt8.ofNat v :: leBytes n (v / 256)

/-- The number whose bytes these are. -/
def ofLe : List UInt8 → Nat
  | [] => 0
  | b :: l => b.toNat + 256 * ofLe l

@[simp] theorem length_leBytes (n v : Nat) : (leBytes n v).length = n := by
  induction n generalizing v with
  | zero => rfl
  | succ n ih => simp [leBytes, ih]

theorem ofLe_leBytes {n v : Nat} (h : v < 256 ^ n) : ofLe (leBytes n v) = v := by
  induction n generalizing v with
  | zero =>
    simp only [Nat.pow_zero] at h
    simp only [leBytes, ofLe]
    omega
  | succ n ih =>
    have hdiv : v / 256 < 256 ^ n := by
      apply Nat.div_lt_of_lt_mul
      rwa [Nat.pow_succ, Nat.mul_comm] at h
    rw [leBytes, ofLe, ih hdiv, UInt8.toNat_ofNat']
    omega

/-- The `n` bytes of the memory `m` from `a` on. -/
def read (m : Nat → UInt8) (a n : Nat) : List UInt8 := (List.range n).map fun j => m (a + j)

@[simp] theorem length_read (m : Nat → UInt8) (a n : Nat) : (read m a n).length = n := by simp [read]

theorem read_congr {m m' : Nat → UInt8} {a n : Nat} (h : ∀ x, a ≤ x → x < a + n → m' x = m x) :
    read m' a n = read m a n := by
  apply List.map_congr_left
  intro j hj
  have := List.mem_range.1 hj
  exact h (a + j) (by omega) (by omega)

theorem read_add (m : Nat → UInt8) (a k n : Nat) : read m a (k + n) = read m a k ++ read m (a + k) n := by
  simp [read, List.range_add, Function.comp_def, Nat.add_assoc]

theorem drop_read (m : Nat → UInt8) (n : Nat) : (read m 0 n).drop 1 = read m 1 (n - 1) := by
  cases n with
  | zero => rfl
  | succ n => rw [Nat.add_comm, read_add, List.drop_left' (length_read ..), Nat.add_sub_cancel_left]

theorem drop_read_add (m : Nat → UInt8) (a n k : Nat) : (read m a n).drop k = read m (a + k) (n - k) := by
  unfold read
  rw [← List.map_drop, List.range_eq_range', List.drop_range', Nat.zero_add, Nat.mul_one]
  apply List.ext_getElem
  · simp
  · intro j h₁ h₂
    simp [Nat.add_assoc]

/-- A memory that starts with the bytes `l`. -/
def bufferOf (l : List UInt8) : Nat → UInt8 := fun j => l.getD j 0

/-- Reading one part of a record. -/
theorem read_bufferOf (l₁ l₂ l₃ : List UInt8) : read (bufferOf (l₁ ++ (l₂ ++ l₃))) l₁.length l₂.length = l₂ := by
  apply List.ext_getElem
  · simp
  · intro j h₁ h₂
    simp only [read, bufferOf, List.getElem_map, List.getElem_range, List.getD_eq_getElem?_getD]
    rw [List.getElem?_append_right (by omega), Nat.add_sub_cancel_left, List.getElem?_append_left h₂,
      List.getElem?_eq_getElem h₂, Option.getD_some]

theorem read_bufferOf_self (l : List UInt8) : read (bufferOf l) 0 l.length = l := by
  have h := read_bufferOf [] l []
  rwa [List.append_nil, List.nil_append] at h

end Bytes
