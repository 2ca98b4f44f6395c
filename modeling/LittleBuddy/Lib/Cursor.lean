import Mathlib.Logic.Function.Basic
import Mathlib.Logic.Function.Iterate
import Mathlib.Tactic.Common
/-!
# Rings with two cursors

An array of `n` cells that is read at one cursor and written at another, each of
which goes back to cell 0 behind the last cell. There is no counter: the cells
from the read cursor up to the write cursor are the content.
-/

namespace Cursor

variable {α : Type} {n r w i k : Nat} {a : Nat → α}

/-- The cursor behind `i`. -/
def next (n i : Nat) : Nat := if i + 1 = n then 0 else i + 1

/-- The number of cells from `r` up to `w`. -/
def gap (n r w : Nat) : Nat := if r ≤ w then w - r else n - r + w

/-- The `k` cells from `r` on. -/
def cells (a : Nat → α) (n : Nat) : Nat → Nat → List α
  | _, 0 => []
  | r, k + 1 => a r :: cells a n (next n r) k

theorem next_lt (h : i < n) : next n i < n := by
  unfold next
  split <;> omega

theorem gap_lt (hr : r < n) (hw : w < n) : gap n r w < n := by
  unfold gap
  split <;> omega

@[simp] theorem gap_self : gap n r r = 0 := by simp [gap]

theorem gap_eq_zero (hr : r < n) : gap n r w = 0 ↔ r = w := by
  unfold gap
  split <;> omega

theorem gap_next_left (hr : r < n) (hw : w < n) (h : r ≠ w) : gap n (next n r) w + 1 = gap n r w := by
  unfold gap next
  split_ifs <;> omega

theorem gap_next_right (hr : r < n) (h : next n w ≠ r) : gap n r (next n w) = gap n r w + 1 := by
  unfold next at h
  unfold gap next
  split_ifs at h ⊢ <;> omega

/-- A write that reaches the read cursor makes the full ring look empty. -/
theorem next_eq_iff (hr : r < n) (hw : w < n) : next n w = r ↔ gap n r w + 1 = n := by
  unfold gap next
  split_ifs <;> omega

@[simp] theorem length_cells : (cells a n r k).length = k := by
  induction k generalizing r with
  | zero => rfl
  | succ k ih => simp [cells, ih]

theorem getElem?_cells (hr : r < n) (hi : i < n) (h : gap n r i < k) : (cells a n r k)[gap n r i]? = some (a i) := by
  induction k generalizing r with
  | zero => omega
  | succ k ih =>
    by_cases hne : r = i
    · simp [hne, cells]
    · have hgap := gap_next_left hr hi hne
      rw [cells, ← hgap, List.getElem?_cons_succ]
      exact ih (next_lt hr) (by omega)

/-- The cursor before `i`. -/
def prev (n i : Nat) : Nat := if i = 0 then n - 1 else i - 1

/-- The last cell of the content is the one before the write cursor. -/
theorem getLast?_cells (hr : r < n) (hw : w < n) (h : r ≠ w) :
    (cells a n r (gap n r w)).getLast? = some (a (prev n w)) := by
  have hprev : prev n w < n := by
    unfold prev
    split_ifs <;> omega
  have hgap : gap n r (prev n w) + 1 = gap n r w := by
    unfold gap prev
    split_ifs <;> omega
  rw [List.getLast?_eq_getElem?, length_cells, ← hgap, Nat.add_sub_cancel]
  exact getElem?_cells hr hprev (by omega)

/-- Writing a cell behind the content leaves the content alone. -/
theorem cells_update_other (hr : r < n) (hi : i < n) (h : k ≤ gap n r i) (x : α) :
    cells (Function.update a i x) n r k = cells a n r k := by
  induction k generalizing r with
  | zero => rfl
  | succ k ih =>
    have hne : r ≠ i := by
      rintro rfl
      simp at h
    have hgap := gap_next_left hr hi hne
    rw [cells, cells, Function.update_of_ne hne, ih (next_lt hr) (by omega)]

/-- Writing a cell of the content. -/
theorem cells_update (hr : r < n) (hi : i < n) (h : gap n r i < k) (hk : k ≤ n) (x : α) :
    cells (Function.update a i x) n r k = (cells a n r k).set (gap n r i) x := by
  induction k generalizing r with
  | zero => omega
  | succ k ih =>
    by_cases hne : r = i
    · subst hne
      have hle : k ≤ gap n (next n r) r := by
        unfold gap next
        split_ifs <;> omega
      rw [cells, cells, Function.update_self, cells_update_other (next_lt hr) hr hle, gap_self, List.set_cons_zero]
    · have hgap := gap_next_left hr hi hne
      rw [cells, cells, Function.update_of_ne hne, ih (next_lt hr) (by omega) (by omega), ← hgap, List.set_cons_succ]

/-- The cell at the write cursor is appended to the content. -/
theorem cells_push (hr : r < n) (hw : w < n) (x : α) :
    cells (Function.update a w x) n r (gap n r w + 1) = cells a n r (gap n r w) ++ [x] := by
  generalize hk : gap n r w = k
  induction k generalizing r with
  | zero =>
    obtain rfl := (gap_eq_zero hr).1 hk
    simp [cells]
  | succ k ih =>
    have hne : r ≠ w := by
      rintro rfl
      simp at hk
    have hgap := gap_next_left hr hw hne
    rw [cells, Function.update_of_ne hne, ih (next_lt hr) (by omega)]
    rfl

theorem mem_cells {x : α} (hr : r < n) (hk : k ≤ n) : x ∈ cells a n r k ↔ ∃ i, i < n ∧ gap n r i < k ∧ a i = x := by
  induction k generalizing r with
  | zero => simp [cells]
  | succ k ih =>
    rw [cells, List.mem_cons, ih (next_lt hr) (by omega)]
    constructor
    · rintro (rfl | ⟨i, hi, hgap, rfl⟩)
      · exact ⟨r, hr, by simp, rfl⟩
      · refine ⟨i, hi, ?_, rfl⟩
        by_cases hne : r = i
        · simp [hne]
        · have := gap_next_left hr hi hne
          omega
    · rintro ⟨i, hi, hgap, rfl⟩
      by_cases hne : r = i
      · exact .inl (by rw [hne])
      · have := gap_next_left hr hi hne
        exact .inr ⟨i, hi, by omega, rfl⟩

/-! ## Positions -/

/-- The cells after the first `k` go on at the cursor moved `k` times. -/
theorem cells_snoc : cells a n r (k + 1) = cells a n r k ++ [a ((next n)^[k] r)] := by
  induction k generalizing r with
  | zero => rfl
  | succ k ih =>
    rw [cells, ih]
    rfl

theorem gap_next_self (hr : r < n) : gap n (next n r) r + 1 = n := by
  unfold gap next
  split_ifs <;> omega

/-- The positions of less than a turn are different. -/
theorem nodup_cells_id (hr : r < n) (hk : k ≤ n) : (cells id n r k).Nodup := by
  induction k generalizing r with
  | zero => exact List.nodup_nil
  | succ k ih =>
    have hlt := next_lt hr
    refine List.nodup_cons.2 ⟨fun hmem => ?_, ih hlt (by omega)⟩
    obtain ⟨i, -, hgap, hi : i = r⟩ := (mem_cells hlt (by omega)).1 hmem
    have := gap_next_self hr
    rw [hi] at hgap
    omega

theorem iterate_next (hr : r < n) (hk : k ≤ n) : (next n)^[k] r = if r + k < n then r + k else r + k - n := by
  induction k with
  | zero => simp [hr]
  | succ k ih =>
    rw [Function.iterate_succ_apply', ih (by omega)]
    unfold next
    split_ifs <;> omega

/-- The whole ring, read from one cell further on. -/
theorem cells_rotate (hr : r < n) : cells a n (next n r) n = (cells a n r n).tail ++ [a r] := by
  obtain ⟨k, rfl⟩ : ∃ k, n = k + 1 := ⟨n - 1, by omega⟩
  have hturn : (next (k + 1))^[k] (next (k + 1) r) = r := by
    rw [← Function.iterate_succ_apply, iterate_next hr (Nat.le_refl _)]
    split_ifs <;> omega
  rw [cells_snoc, hturn]
  rfl

end Cursor
