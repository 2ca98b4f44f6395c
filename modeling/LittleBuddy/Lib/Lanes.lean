import Mathlib.Logic.Function.Basic
import Mathlib.Tactic.Common
/-!
# Lanes: rings side by side in one array

Each lane owns a range of the places of an array and fills it round and round.
The items of a lane are counted from 0 on, and item `k` lies `k` places further
than item 0, modulo the size of the lane.
-/

/-- Ranges of an array, one for each lane, that do not overlap. -/
structure Lanes (ι : Type) where
  base : ι → Nat
  size : ι → Nat
  apart : ∀ p q, p ≠ q → base p + size p ≤ base q ∨ base q + size q ≤ base p

namespace Lanes

variable {ι : Type} (l : Lanes ι) {p q : ι} {i j k : Nat}

/-- The place of item `k` of lane `p`. -/
def place (p : ι) (k : Nat) : Nat := l.base p + k % l.size p

/-- The place behind `slot` in lane `p`. -/
def after (p : ι) (slot : Nat) : Nat := if slot + 1 = l.base p + l.size p then l.base p else slot + 1

variable {l}

theorem base_le_place : l.base p ≤ l.place p k := Nat.le_add_right _ _

theorem place_lt (h : 0 < l.size p) : l.place p k < l.base p + l.size p :=
  Nat.add_lt_add_left (Nat.mod_lt _ h) _

@[simp] theorem place_zero : l.place p 0 = l.base p := by simp [place]

theorem after_place (h : 0 < l.size p) : l.after p (l.place p k) = l.place p (k + 1) := by
  have hlt := Nat.mod_lt k h
  unfold after place
  rw [Nat.add_mod_eq_ite]
  rcases Nat.lt_or_ge 1 (l.size p) with h1 | h1
  · rw [Nat.mod_eq_of_lt h1]
    split_ifs <;> omega
  · have hsize : l.size p = 1 := by omega
    rw [hsize] at hlt ⊢
    split_ifs <;> omega

/-- A turn later an item has the same place. -/
theorem place_add_size : l.place p (k + l.size p) = l.place p k := by
  rw [place, place, Nat.add_mod_right]

theorem place_ne_of_lt (hij : i < j) (h : j < i + l.size p) : l.place p i ≠ l.place p j := by
  intro he
  have hmod : i % l.size p = j % l.size p := by
    unfold place at he
    omega
  have hdvd := Nat.dvd_of_mod_eq_zero (Nat.sub_mod_eq_zero_of_mod_eq hmod.symm)
  have hle := Nat.le_of_dvd (by omega) hdvd
  omega

/-- A place belongs to one lane. -/
theorem lane_eq (hp : 0 < l.size p) (hq : 0 < l.size q) (he : l.place p i = l.place q j) : p = q := by
  apply Classical.byContradiction
  intro hne
  have h1 := place_lt (k := i) hp
  have h2 := place_lt (k := j) hq
  have h3 := base_le_place (l := l) (p := p) (k := i)
  have h4 := base_le_place (l := l) (p := q) (k := j)
  rcases l.apart p q hne with h | h <;> omega

/-! ## Windows -/

variable (l)

/-- Place `i` holds one of the items from `lo` up to `hi` of a lane. -/
def Window (lo hi : ι → Nat) (i : Nat) : Prop := ∃ p k, lo p ≤ k ∧ k < hi p ∧ l.place p k = i

variable {l}

theorem Window.not_of_empty {lo hi : ι → Nat} (h : ∀ p, lo p = hi p) : ¬ l.Window lo hi i := by
  rintro ⟨p, k, hlo, hhi, -⟩
  have := h p
  omega

theorem Window.first (lo hi : ι → Nat) (h : lo p < hi p) : l.Window lo hi (l.place p (lo p)) := ⟨p, lo p, Nat.le_refl _, h, rfl⟩

variable [DecidableEq ι] (lo hi : ι → Nat)

/-- A window with one more item at its end. -/
theorem window_push (h : lo p ≤ hi p) :
    l.Window lo (Function.update hi p (hi p + 1)) i ↔ l.Window lo hi i ∨ i = l.place p (hi p) := by
  constructor
  · rintro ⟨q, k, hlo, hhi, rfl⟩
    by_cases hq : q = p
    · subst hq
      rw [Function.update_self] at hhi
      rcases Nat.lt_succ_iff_lt_or_eq.1 hhi with hlt | rfl
      · exact .inl ⟨q, k, hlo, hlt, rfl⟩
      · exact .inr rfl
    · rw [Function.update_of_ne hq] at hhi
      exact .inl ⟨q, k, hlo, hhi, rfl⟩
  · rintro (⟨q, k, hlo, hhi, rfl⟩ | rfl)
    · refine ⟨q, k, hlo, ?_, rfl⟩
      by_cases hq : q = p
      · subst hq
        rw [Function.update_self]
        omega
      · rwa [Function.update_of_ne hq]
    · refine ⟨p, hi p, h, ?_, rfl⟩
      rw [Function.update_self]
      omega

/-- A window of at most a turn without its first item. -/
theorem window_pop (hsize : ∀ q, lo q < hi q → 0 < l.size q) (hturn : ∀ q, hi q ≤ lo q + l.size q) (h : lo p < hi p) :
    l.Window (Function.update lo p (lo p + 1)) hi i ↔ l.Window lo hi i ∧ i ≠ l.place p (lo p) := by
  constructor
  · rintro ⟨q, k, hlo, hhi, rfl⟩
    by_cases hq : q = p
    · subst hq
      rw [Function.update_self] at hlo
      refine ⟨⟨q, k, by omega, hhi, rfl⟩, ?_⟩
      have := hturn q
      exact (place_ne_of_lt (by omega) (by omega)).symm
    · rw [Function.update_of_ne hq] at hlo
      refine ⟨⟨q, k, hlo, hhi, rfl⟩, ?_⟩
      intro he
      exact hq (lane_eq (hsize q (by omega)) (hsize p h) he)
  · rintro ⟨⟨q, k, hlo, hhi, rfl⟩, hne⟩
    refine ⟨q, k, ?_, hhi, rfl⟩
    by_cases hq : q = p
    · subst hq
      rw [Function.update_self]
      apply Nat.succ_le_of_lt
      apply Nat.lt_of_le_of_ne hlo
      rintro rfl
      exact hne rfl
    · rwa [Function.update_of_ne hq]

end Lanes
