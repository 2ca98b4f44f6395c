import Mathlib.Data.List.Nodup
import Mathlib.Tactic.Common
import Mathlib.Logic.Function.Basic
/-!
# Counted arrays

An array with a separate counter holds the list of its first cells. C code
inserts at the front and removes in the middle by moving cells one by one; the
two loops are `shiftUp` and `shiftDown`, and the lemmas say what they do to the
list.
-/

namespace Slots

variable {α : Type}

/-- The first `n` cells. -/
def view (a : Nat → α) (n : Nat) : List α := (List.range n).map a

/-- Move the cells below `i` up by one, the highest first; `k` cells are moved. -/
def shiftUp (a : Nat → α) (i : Nat) : Nat → Nat → α
  | 0 => a
  | k + 1 => let b := shiftUp a i k; Function.update b (i - k) (b (i - 1 - k))

/-- Move the cells above `i` down by one, the lowest first; `k` cells are moved. -/
def shiftDown (a : Nat → α) (i : Nat) : Nat → Nat → α
  | 0 => a
  | k + 1 => let b := shiftDown a i k; Function.update b (i + k) (b (i + k + 1))

variable {a b : Nat → α} {i k n : Nat}

@[simp] theorem length_view : (view a n).length = n := by simp [view]

theorem getElem_view {j : Nat} (h : j < (view a n).length) : (view a n)[j] = a j := by simp [view]

theorem mem_view {x : α} : x ∈ view a n ↔ ∃ j, j < n ∧ a j = x := by simp [view]

theorem map_view {β : Type} (f : α → β) : (view a n).map f = view (fun j => f (a j)) n := by
  simp only [view, List.map_map]
  rfl

theorem view_inj (h : (view a n).Nodup) {j k : Nat} (hj : j < n) (hk : k < n) (he : a j = a k) : j = k :=
  List.inj_on_of_nodup_map h (List.mem_range.2 hj) (List.mem_range.2 hk) he

theorem view_congr (h : ∀ j, j < n → a j = b j) : view a n = view b n := by
  apply List.map_congr_left
  intro j hj
  exact h j (List.mem_range.1 hj)

theorem view_succ : view a (n + 1) = view a n ++ [a n] := by simp [view, List.range_succ]

theorem view_update_end (x : α) : view (Function.update a n x) (n + 1) = view a n ++ [x] := by
  rw [view_succ, Function.update_self]
  congr 1
  apply view_congr
  intro j hj
  exact Function.update_of_ne (by omega) ..

theorem view_update (x : α) : view (Function.update a i x) n = (view a n).set i x := by
  apply List.ext_getElem
  · simp
  · intro j h₁ h₂
    rw [getElem_view, List.getElem_set, getElem_view, Function.update_apply]
    simp only [eq_comm]

/-- A loop that starts from the top never reads a cell it has written. -/
theorem shiftUp_apply (h : k ≤ i) (j : Nat) :
    shiftUp a i k j = if i - k < j ∧ j ≤ i then a (j - 1) else a j := by
  induction k generalizing j with
  | zero => simp only [shiftUp]; rw [if_neg (by omega)]
  | succ k ih =>
    simp only [shiftUp]
    by_cases hj : j = i - k
    · subst hj
      rw [Function.update_self, ih (by omega), if_neg (by omega), if_pos (by omega)]
      congr 1
      omega
    · rw [Function.update_of_ne hj, ih (by omega)]
      split_ifs <;> first | rfl | omega

@[simp] theorem shiftUp_zero : shiftUp a i i 0 = a 0 := by
  rw [shiftUp_apply (Nat.le_refl i), if_neg (by omega)]

theorem shiftDown_apply (j : Nat) :
    shiftDown a i k j = if i ≤ j ∧ j < i + k then a (j + 1) else a j := by
  induction k generalizing j with
  | zero => simp only [shiftDown]; rw [if_neg (by omega)]
  | succ k ih =>
    simp only [shiftDown]
    by_cases hj : j = i + k
    · subst hj
      rw [Function.update_self, ih, if_neg (by omega), if_pos (by omega)]
    · rw [Function.update_of_ne hj, ih]
      split_ifs <;> first | rfl | omega

/-- The loops copy cells. -/
theorem exists_shiftUp (h : k ≤ i) (j : Nat) : ∃ j', shiftUp a i k j = a j' := by
  rw [shiftUp_apply h]
  split_ifs
  · exact ⟨j - 1, rfl⟩
  · exact ⟨j, rfl⟩

theorem exists_shiftDown (j : Nat) : ∃ j', shiftDown a i k j = a j' := by
  rw [shiftDown_apply]
  split_ifs
  · exact ⟨j + 1, rfl⟩
  · exact ⟨j, rfl⟩

/-- The cells below `i` move up over the one at `i`, and `x` takes the front. -/
theorem view_shiftUp (h : i < n) (x : α) :
    view (Function.update (shiftUp a i i) 0 x) n = x :: (view a n).eraseIdx i := by
  apply List.ext_getElem
  · rw [length_view, List.length_cons, List.length_eraseIdx_of_lt (by simpa using h), length_view]
    omega
  · intro j h₁ h₂
    rw [getElem_view]
    cases j with
    | zero => simp
    | succ j =>
      rw [Function.update_of_ne (by omega), List.getElem_cons_succ, List.getElem_eraseIdx, shiftUp_apply (Nat.le_refl i)]
      split_ifs <;> first | omega | simp [getElem_view]

/-- The front of a list with a free cell behind it. -/
theorem view_shiftUp_end (x : α) : view (Function.update (shiftUp a n n) 0 x) (n + 1) = x :: view a n := by
  rw [view_shiftUp (by omega), view_succ, List.eraseIdx_append_of_length_le (by simp)]
  simp

/-- The cells above `i` move down over the one at `i`. -/
theorem view_shiftDown (h : i < n) : view (shiftDown a i (n - i - 1)) (n - 1) = (view a n).eraseIdx i := by
  apply List.ext_getElem
  · rw [length_view, List.length_eraseIdx_of_lt (by simpa using h), length_view]
  · intro j h₁ h₂
    have hj : j < n - 1 := by simpa using h₁
    rw [getElem_view, List.getElem_eraseIdx, shiftDown_apply]
    split_ifs <;> first | omega | simp [getElem_view]

/-! ## Searching -/

variable {κ : Type} [DecidableEq κ] {key : α → κ} {x : κ}

/-- The first of the first `n` cells with the key `x`. -/
def search (key : α → κ) (x : κ) (a : Nat → α) (n : Nat) : Option Nat :=
  (List.range n).find? fun i => key (a i) = x

theorem search_none (h : search key x a n = none) : x ∉ (view a n).map key := by
  intro hx
  obtain ⟨y, hy, hyx⟩ := List.mem_map.1 hx
  obtain ⟨j, hj, rfl⟩ := mem_view.1 hy
  have := List.find?_eq_none.1 h j (List.mem_range.2 hj)
  simp only [decide_eq_true_eq] at this
  exact this hyx

theorem search_some (h : search key x a n = some i) : i < n ∧ key (a i) = x := by
  constructor
  · exact List.mem_range.1 (List.mem_of_find?_eq_some h)
  · simpa using List.find?_some h

theorem search_mem (h : search key x a n = some i) : x ∈ (view a n).map key := by
  obtain ⟨hi, rfl⟩ := search_some h
  exact List.mem_map_of_mem (mem_view.2 ⟨i, hi, rfl⟩)

/-- With distinct keys, the cell that is found is the only one with its key. -/
theorem search_unique (hd : ((view a n).map key).Nodup) (h : search key x a n = some i) {y : α}
    (hy : y ∈ view a n) (hx : key y = x) : a i = y := by
  obtain ⟨hi, hia⟩ := search_some h
  exact List.inj_on_of_nodup_map hd (mem_view.2 ⟨i, hi, rfl⟩) hy (hia.trans hx.symm)

end Slots
