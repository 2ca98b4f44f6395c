import Mathlib.Algebra.Group.Nat.Defs
import Mathlib.Data.List.Basic
import Mathlib.Tactic.Common
/-!
# Tilings of an interval

Lists of pieces that lie one next to the other, from the upper end of an interval
down or from the lower end up, and the greedy tiling by powers of two: each piece
is the highest bit of the length that is left.
-/

namespace Tiles

variable {α : Type} {start len : α → Nat} {a b x : Nat} {l : List α} {p : α}

/-- The pieces of `l` tile the numbers from `a` to `b`, from `b` down. -/
def Down (start len : α → Nat) (a : Nat) : Nat → List α → Prop
  | b, [] => a = b
  | b, p :: l => start p + len p = b ∧ Down start len a (start p) l

/-- The pieces of `l` tile the numbers from `a` to `b`, from `a` up. -/
def Up (start len : α → Nat) (b : Nat) : Nat → List α → Prop
  | a, [] => a = b
  | a, p :: l => start p = a ∧ Up start len b (a + len p) l

theorem Down.le (h : Down start len a b l) : a ≤ b := by
  induction l generalizing b with
  | nil => exact Nat.le_of_eq h
  | cons p l ih =>
    have hle := ih h.2
    have hend := h.1
    omega

theorem Up.le (h : Up start len b a l) : a ≤ b := by
  induction l generalizing a with
  | nil => exact Nat.le_of_eq h
  | cons p l ih =>
    have hle := ih h.2
    omega

/-- A number of the interval is in a piece, and no other number is. -/
theorem Down.covers (h : Down start len a b l) : (a ≤ x ∧ x < b) ↔ ∃ p ∈ l, start p ≤ x ∧ x < start p + len p := by
  induction l generalizing b with
  | nil =>
    obtain rfl : a = b := h
    simp only [List.not_mem_nil, false_and, exists_false, iff_false]
    omega
  | cons p l ih =>
    obtain ⟨hend, hrest⟩ := h
    have hle := hrest.le
    rw [List.exists_mem_cons_iff, ← ih hrest]
    omega

theorem Up.covers (h : Up start len b a l) : (a ≤ x ∧ x < b) ↔ ∃ p ∈ l, start p ≤ x ∧ x < start p + len p := by
  induction l generalizing a with
  | nil =>
    obtain rfl : a = b := h
    simp only [List.not_mem_nil, false_and, exists_false, iff_false]
    omega
  | cons p l ih =>
    obtain ⟨hstart, hrest⟩ := h
    have hle := hrest.le
    rw [List.exists_mem_cons_iff, ← ih hrest]
    omega

theorem Down.piece_le (h : Down start len a b l) (hp : p ∈ l) : start p + len p ≤ b := by
  induction l generalizing b with
  | nil => cases hp
  | cons q l ih =>
    obtain ⟨hend, hrest⟩ := h
    rcases List.mem_cons.1 hp with rfl | hp
    · exact Nat.le_of_eq hend
    · have hle := ih hrest hp
      omega

theorem Up.le_piece (h : Up start len b a l) (hp : p ∈ l) : a ≤ start p := by
  induction l generalizing a with
  | nil => cases hp
  | cons q l ih =>
    obtain ⟨hstart, hrest⟩ := h
    rcases List.mem_cons.1 hp with rfl | hp
    · exact Nat.le_of_eq hstart.symm
    · have hle := ih hrest hp
      omega

/-- No two pieces overlap. -/
theorem Down.disjoint (h : Down start len a b l) : l.Pairwise fun p q => start q + len q ≤ start p := by
  induction l generalizing b with
  | nil => exact .nil
  | cons p l ih => exact .cons (fun q hq => h.2.piece_le hq) (ih h.2)

theorem Up.disjoint (h : Up start len b a l) : l.Pairwise fun p q => start p + len p ≤ start q := by
  induction l generalizing a with
  | nil => exact .nil
  | cons p l ih =>
    refine .cons (fun q hq => ?_) (ih h.2)
    have hle := h.2.le_piece hq
    have hstart := h.1
    omega

/-! ## The highest bit -/

variable {m j : Nat}

theorem bit_le (h : m ≠ 0) : 2 ^ m.log2 ≤ m := Nat.log2_self_le h

/-- What is left is shorter than the piece, -/
theorem rest_lt_bit (m : Nat) : m - 2 ^ m.log2 < 2 ^ m.log2 := by
  have hlt := Nat.lt_log2_self (n := m)
  rw [Nat.pow_succ] at hlt
  have hpos := Nat.two_pow_pos m.log2
  omega

/-- has one bit less than there was room for, -/
theorem rest_lt {t : Nat} (h : m ≠ 0) (hm : m < 2 ^ (t + 1)) : m - 2 ^ m.log2 < 2 ^ t := by
  have hlog : m.log2 ≤ t := Nat.lt_succ_iff.1 ((Nat.log2_lt h).2 hm)
  exact Nat.lt_of_lt_of_le (rest_lt_bit m) (Nat.pow_le_pow_right (by decide) hlog)

/-- and keeps the alignment of the length. -/
theorem dvd_bit (h : m ≠ 0) (hj : 2 ^ j ∣ m) : 2 ^ j ∣ 2 ^ m.log2 := by
  have hle : 2 ^ j ≤ m := Nat.le_of_dvd (Nat.pos_of_ne_zero h) hj
  exact Nat.pow_dvd_pow 2 ((Nat.le_log2 h).2 hle)

theorem dvd_rest (h : m ≠ 0) (hj : 2 ^ j ∣ m) : 2 ^ j ∣ m - 2 ^ m.log2 := Nat.dvd_sub hj (dvd_bit h hj)

/-- The next piece divides what this one does. -/
theorem next_bit_dvd (h : m - 2 ^ m.log2 ≠ 0) : 2 ^ (m - 2 ^ m.log2).log2 ∣ 2 ^ m.log2 := by
  have hlt : (m - 2 ^ m.log2).log2 < m.log2 := (Nat.log2_lt h).2 (rest_lt_bit m)
  exact Nat.pow_dvd_pow 2 (Nat.le_of_lt hlt)

end Tiles
