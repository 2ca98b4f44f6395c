import Mathlib.Logic.Function.Basic
/-!
# NOR flash memory

A NOR cell is erased to all ones and programming only clears bits, so a byte
after programming is the old byte AND the data. An interrupted program leaves
a byte between the two; an interrupted erase leaves anything.
-/

namespace NorMem

/-- Byte-addressed memory. -/
abbrev Mem := Nat → UInt8

/-- `a` is one of the `len` addresses from `base`. -/
def InRange (base len a : Nat) : Prop := base ≤ a ∧ a < base + len

instance (base len a : Nat) : Decidable (InRange base len a) := inferInstanceAs (Decidable (_ ∧ _))

/-- `memset(base, 0xff, len)` by an erase. -/
def erase (f : Mem) (base len : Nat) : Mem := fun a => if InRange base len a then 0xff else f a

/-- Programs `len` bytes of `data` from `base` on. -/
def program (f : Mem) (base len : Nat) (data : Nat → UInt8) : Mem :=
  fun a => if InRange base len a then f a &&& data (a - base) else f a

/-- A program that stopped half-way: `mid` says which bits are still uncleared. -/
def programPart (f : Mem) (base len : Nat) (data : Nat → UInt8) (mid : Mem) : Mem :=
  fun a => if InRange base len a then f a &&& (data (a - base) ||| mid a) else f a

/-- An erase that stopped half-way leaves any content in its range. -/
def erasePart (f : Mem) (base len : Nat) (mid : Mem) : Mem := fun a => if InRange base len a then mid a else f a

/-- `memcpy(dst + offs, src, len)`. -/
def memcpy (dst : Nat → UInt8) (offs : Nat) (src : Nat → UInt8) (len : Nat) : Nat → UInt8 :=
  fun j => if InRange offs len j then src (j - offs) else dst j

/-- Writing `data` over `old` needs no erase: it only clears bits. -/
def Clears (old data : UInt8) : Prop := old &&& data = data

/-! ## Bytes -/

theorem and_absorb (x y : UInt8) : x &&& (x &&& y) = x &&& y := by
  rw [← UInt8.and_assoc, UInt8.and_self]

theorem ff_and (x : UInt8) : 0xff &&& x = x := by
  rw [UInt8.and_comm]; exact UInt8.and_neg_one

/-- Finishing an interrupted program gives what the whole program gives. -/
theorem programPart_finish (x d m : UInt8) : (x &&& (d ||| m)) &&& d = x &&& d := by
  rw [UInt8.and_assoc]
  congr 1
  apply UInt8.toBitVec_inj.1
  ext i hi
  simp only [UInt8.toBitVec_and, UInt8.toBitVec_or, BitVec.getElem_and, BitVec.getElem_or]
  cases d.toBitVec[i] <;> simp

/-- New data that only clears bits of `base AND old` can replace `old` in a
pending program over `base`. -/
theorem Clears.replace {base old new : UInt8} (h : Clears (base &&& old) new) :
    base &&& new = (base &&& old) &&& new := by
  unfold Clears at h
  have hb : base &&& new = new := by
    rw [← h, UInt8.and_assoc base old new, and_absorb]
  rw [hb, h]

/-! ## Memory -/

theorem erase_of {f : Mem} {base len a : Nat} (h : InRange base len a) : erase f base len a = 0xff := if_pos h

theorem erase_other {f : Mem} {base len a : Nat} (h : ¬ InRange base len a) : erase f base len a = f a := if_neg h

theorem program_of {f : Mem} {base len a : Nat} {data} (h : InRange base len a) :
    program f base len data a = f a &&& data (a - base) := if_pos h

theorem program_other {f : Mem} {base len a : Nat} {data} (h : ¬ InRange base len a) :
    program f base len data a = f a := if_neg h

theorem memcpy_of {dst src : Nat → UInt8} {offs len j : Nat} (h : InRange offs len j) :
    memcpy dst offs src len j = src (j - offs) := if_pos h

theorem memcpy_other {dst src : Nat → UInt8} {offs len j : Nat} (h : ¬ InRange offs len j) :
    memcpy dst offs src len j = dst j := if_neg h

theorem program_zero (f : Mem) (base : Nat) (data : Nat → UInt8) : program f base 0 data = f := by
  funext a
  exact program_other fun h => absurd h.2 (Nat.not_lt.2 h.1)

/-- Two programs, one behind the other. -/
theorem program_append (f : Mem) (base n m : Nat) (data : Nat → UInt8) :
    program (program f base n data) (base + n) m (fun j => data (n + j)) = program f base (n + m) data := by
  funext a
  by_cases hfirst : InRange base n a
  · have hwhole : InRange base (n + m) a := ⟨hfirst.1, by have := hfirst.2; omega⟩
    rw [program_other (fun h => absurd h.1 (Nat.not_le.2 hfirst.2)), program_of hfirst, program_of hwhole]
  · by_cases hsecond : InRange (base + n) m a
    · have hle := hsecond.1
      have hwhole : InRange base (n + m) a := ⟨by omega, by have := hsecond.2; omega⟩
      rw [program_of hsecond, program_other hfirst, program_of hwhole]
      congr 2
      omega
    · have hout : ¬ InRange base (n + m) a := by
        simp only [InRange] at hfirst hsecond ⊢
        omega
      rw [program_other hsecond, program_other hfirst, program_other hout]

theorem memcpy_zero (dst : Nat → UInt8) (offs : Nat) (src : Nat → UInt8) : memcpy dst offs src 0 = dst := by
  funext j
  exact memcpy_other fun h => absurd h.2 (Nat.not_lt.2 h.1)

/-- Two copies, one behind the other. -/
theorem memcpy_append (dst : Nat → UInt8) (offs n m : Nat) (src : Nat → UInt8) :
    memcpy (memcpy dst offs src n) (offs + n) (fun j => src (n + j)) m = memcpy dst offs src (n + m) := by
  funext j
  by_cases hfirst : InRange offs n j
  · have hwhole : InRange offs (n + m) j := ⟨hfirst.1, by have := hfirst.2; omega⟩
    rw [memcpy_other (fun h => absurd h.1 (Nat.not_le.2 hfirst.2)), memcpy_of hfirst, memcpy_of hwhole]
  · by_cases hsecond : InRange (offs + n) m j
    · have hle := hsecond.1
      have hwhole : InRange offs (n + m) j := ⟨by omega, by have := hsecond.2; omega⟩
      rw [memcpy_of hsecond, memcpy_of hwhole]
      congr 1
      omega
    · have hout : ¬ InRange offs (n + m) j := by
        simp only [InRange] at hfirst hsecond ⊢
        omega
      rw [memcpy_other hsecond, memcpy_other hfirst, memcpy_other hout]

end NorMem
