import Mathlib.Data.List.Basic
import Mathlib.Logic.Function.Basic
import Mathlib.Order.MinMax
import Mathlib.Tactic.Common
/-!
# Queues of time differences

A list of items, each with the time from the one before it: `absolute` gives
the times themselves. Entries are put in, taken out and let pass by changes of
the differences next to them.
-/

namespace DeltaQueue

variable {α : Type}

/-- The times of the items, where the first difference is from `base` on. -/
def absolute : Nat → List (α × Nat) → List (α × Nat)
  | _, [] => []
  | base, x :: q => (x.1, base + x.2) :: absolute (base + x.2) q

/-- The time from the start of the queue to its end. -/
def total : List (α × Nat) → Nat
  | [] => 0
  | x :: q => x.2 + total q

/-- The entries that come `before` the time `ticks`, the time that remains behind
them, and the other entries. -/
def advance (before : Nat → Nat → Prop) [DecidableRel before] : Nat → List (α × Nat) →
    List (α × Nat) × Nat × List (α × Nat)
  | ticks, [] => ([], ticks, [])
  | ticks, x :: q =>
    if before x.2 ticks then
      let r := advance before (ticks - x.2) q
      (x :: r.1, r.2)
    else ([], ticks, x :: q)

/-- The place for a new entry. -/
abbrev place : Nat → List (α × Nat) → List (α × Nat) × Nat × List (α × Nat) := advance (· < ·)

/-- The entries whose time has come. -/
abbrev due : Nat → List (α × Nat) → List (α × Nat) × Nat × List (α × Nat) := advance (· ≤ ·)

/-- The queue of which `ticks` have passed, in which nothing is taken out. -/
def catchUp : Nat → List (α × Nat) → List (α × Nat)
  | _, [] => []
  | ticks, x :: q => if x.2 ≤ ticks then (x.1, 0) :: catchUp (ticks - x.2) q else (x.1, x.2 - ticks) :: q

/-- The first difference, changed. -/
def mapHead (f : Nat → Nat) : List (α × Nat) → List (α × Nat)
  | [] => []
  | x :: q => (x.1, f x.2) :: q

variable {base ticks r : Nat} {p q l : List (α × Nat)}

@[simp] theorem absolute_nil : absolute base ([] : List (α × Nat)) = [] := rfl

@[simp] theorem absolute_cons {x : α × Nat} : absolute base (x :: q) = (x.1, base + x.2) :: absolute (base + x.2) q := rfl

theorem absolute_cons_eq_iff {a : α} {t t' base' : Nat} :
    absolute base ((a, t) :: q) = absolute base' ((a, t') :: q) ↔ base + t = base' + t' := by
  constructor
  · intro h
    simp only [absolute_cons, List.cons.injEq, Prod.mk.injEq, true_and] at h
    exact h.1
  · intro h
    rw [absolute_cons, absolute_cons, h]

theorem head?_absolute : (absolute base q).head? = q.head?.map fun x => (x.1, base + x.2) := by
  cases q <;> rfl

theorem absolute_append : absolute base (p ++ q) = absolute base p ++ absolute (base + total p) q := by
  induction p generalizing base with
  | nil => rfl
  | cons x p ih => simp only [List.cons_append, absolute_cons, total, ih, Nat.add_assoc]

theorem map_fst_absolute (base : Nat) (q : List (α × Nat)) : (absolute base q).map Prod.fst = q.map Prod.fst := by
  induction q generalizing base with
  | nil => rfl
  | cons x q ih => simp only [absolute_cons, List.map_cons, ih]

theorem le_absolute {x : α × Nat} (h : x ∈ absolute base q) : base ≤ x.2 := by
  induction q generalizing base with
  | nil => simp at h
  | cons y q ih =>
    rcases List.mem_cons.1 h with rfl | h
    · exact Nat.le_add_right _ _
    · exact Nat.le_trans (Nat.le_add_right _ _) (ih h)

theorem absolute_le {x : α × Nat} (h : x ∈ absolute base q) : x.2 ≤ base + total q := by
  induction q generalizing base with
  | nil => simp at h
  | cons y q ih =>
    rw [total, ← Nat.add_assoc]
    rcases List.mem_cons.1 h with rfl | h
    · exact Nat.le_add_right _ _
    · exact ih h

/-- The queue is ordered by time. -/
theorem absolute_sorted (base : Nat) (q : List (α × Nat)) : (absolute base q).Pairwise fun x y => x.2 ≤ y.2 := by
  induction q generalizing base with
  | nil => exact List.Pairwise.nil
  | cons x q ih => exact List.Pairwise.cons (fun y hy => le_absolute hy) (ih _)

@[simp] theorem map_fst_mapHead (f : Nat → Nat) (q : List (α × Nat)) :
    (mapHead f q).map Prod.fst = q.map Prod.fst := by
  cases q <;> rfl

@[simp] theorem map_fst_catchUp (ticks : Nat) (q : List (α × Nat)) :
    (catchUp ticks q).map Prod.fst = q.map Prod.fst := by
  induction q generalizing ticks with
  | nil => rfl
  | cons x q ih =>
    rw [catchUp]
    split
    · simp only [List.map_cons, ih]
    · rfl

theorem catchUp_zero (q : List (α × Nat)) : catchUp 0 q = q := by
  induction q with
  | nil => rfl
  | cons x q ih =>
    rw [catchUp]
    split
    · next h =>
      rw [Nat.sub_eq_zero_of_le (Nat.zero_le _), ih, ← Nat.le_zero.1 h]
    · rfl

/-- Nothing but the first difference changes while its time has not passed. -/
theorem catchUp_of_le {x : α × Nat} (h : ticks ≤ x.2) : catchUp ticks (x :: q) = (x.1, x.2 - ticks) :: q := by
  rw [catchUp]
  split
  · next h' =>
    rw [Nat.le_antisymm h' h, Nat.sub_self, catchUp_zero]
  · rfl

theorem head_catchUp (ticks : Nat) (x : α × Nat) (q : List (α × Nat)) :
    (catchUp ticks (x :: q)).head? = some (x.1, x.2 - ticks) := by
  rw [catchUp]
  split
  · next h => rw [Nat.sub_eq_zero_of_le h]; rfl
  · rfl

theorem catchUp_lt {n : Nat} (h : ∀ x ∈ q, x.2 < n) (ticks : Nat) : ∀ x ∈ catchUp ticks q, x.2 < n := by
  induction q generalizing ticks with
  | nil => exact h
  | cons y q ih =>
    have hy := h y (by simp)
    have hq : ∀ x ∈ q, x.2 < n := fun x hx => h x (List.mem_cons_of_mem _ hx)
    intro x hx
    rw [catchUp] at hx
    split at hx
    · rcases List.mem_cons.1 hx with rfl | hx
      · exact Nat.zero_lt_of_lt hy
      · exact ih hq _ x hx
    · rcases List.mem_cons.1 hx with rfl | hx
      · exact Nat.lt_of_le_of_lt (Nat.sub_le _ _) hy
      · exact hq x hx

theorem mapHead_lt {f : Nat → Nat} {n : Nat} (hf : ∀ t < n, f t < n) (h : ∀ x ∈ q, x.2 < n) :
    ∀ x ∈ mapHead f q, x.2 < n := by
  cases q with
  | nil => exact h
  | cons y q =>
    rintro x (_ | ⟨_, hx⟩)
    · exact hf _ (h y (by simp))
    · exact h x (List.mem_cons_of_mem _ hx)

/-- The first difference is `r` at least. -/
def AtLeast (r : Nat) (q : List (α × Nat)) : Prop := ∀ x ∈ q.head?, r ≤ x.2

theorem absolute_mapHead_sub (h : AtLeast r q) : absolute (base + r) (mapHead (· - r) q) = absolute base q := by
  cases q with
  | nil => rfl
  | cons x q =>
    have hx := h x rfl
    simp only [mapHead, absolute_cons, Nat.add_assoc, Nat.add_sub_cancel' hx]

section Advance
variable {before : Nat → Nat → Prop} [DecidableRel before] {x : α × Nat}

theorem advance_of_before (h : before x.2 ticks) : advance before ticks (x :: q) =
    (x :: (advance before (ticks - x.2) q).1, (advance before (ticks - x.2) q).2) :=
  if_pos h

theorem advance_of_not_before (h : ¬ before x.2 ticks) : advance before ticks (x :: q) = ([], ticks, x :: q) :=
  if_neg h

theorem advance_spec (hle : ∀ d t, before d t → d ≤ t)
    (hge : ∀ d t, ¬ before d t → t ≤ d) (ticks : Nat) (q : List (α × Nat)) :
    q = (advance before ticks q).1 ++ (advance before ticks q).2.2 ∧
    total (advance before ticks q).1 + (advance before ticks q).2.1 = ticks ∧
    AtLeast (advance before ticks q).2.1 (advance before ticks q).2.2 := by
  induction q generalizing ticks with
  | nil => exact ⟨rfl, Nat.zero_add _, fun _ h => by simp [advance] at h⟩
  | cons x q ih =>
    by_cases h : before x.2 ticks
    · obtain ⟨h₁, h₂, h₃⟩ := ih (ticks - x.2)
      have := hle _ _ h
      rw [advance_of_before h]
      refine ⟨by rw [List.cons_append, ← h₁], ?_, h₃⟩
      simp only [total]
      omega
    · rw [advance_of_not_before h]
      refine ⟨rfl, Nat.zero_add _, fun y hy => ?_⟩
      rw [← Option.some.inj hy]
      exact hge _ _ h

end Advance

theorem place_spec (ticks : Nat) (q : List (α × Nat)) : q = (place ticks q).1 ++ (place ticks q).2.2 ∧
    total (place ticks q).1 + (place ticks q).2.1 = ticks ∧ AtLeast (place ticks q).2.1 (place ticks q).2.2 :=
  advance_spec (fun _ _ => Nat.le_of_lt) (fun _ _ => Nat.le_of_not_lt) ticks q

theorem due_spec (ticks : Nat) (q : List (α × Nat)) : q = (due ticks q).1 ++ (due ticks q).2.2 ∧
    total (due ticks q).1 + (due ticks q).2.1 = ticks ∧ AtLeast (due ticks q).2.1 (due ticks q).2.2 :=
  advance_spec (fun _ _ h => h) (fun _ _ h => Nat.le_of_lt (Nat.lt_of_not_le h)) ticks q

/-- An item that is put in is due at its time, and moves no other one. -/
theorem absolute_insert (a : α) (base ticks : Nat) (q : List (α × Nat)) :
    absolute base ((place ticks q).1 ++ (a, (place ticks q).2.1) :: mapHead (· - (place ticks q).2.1) (place ticks q).2.2) =
      absolute base (place ticks q).1 ++ (a, base + ticks) ::
        absolute (base + total (place ticks q).1) (place ticks q).2.2 := by
  obtain ⟨-, h₂, h₃⟩ := place_spec ticks q
  rw [absolute_append, absolute_cons, absolute_mapHead_sub h₃, Nat.add_assoc, h₂]

/-- Items whose time has passed are due now. -/
theorem absolute_catchUp (base ticks : Nat) (q : List (α × Nat)) :
    absolute (base + ticks) (catchUp ticks q) = (absolute base q).map fun x => (x.1, max x.2 (base + ticks)) := by
  induction q generalizing base ticks with
  | nil => rfl
  | cons x q ih =>
    rw [catchUp]
    split
    · next h =>
      have hsum : base + ticks = base + x.2 + (ticks - x.2) := by omega
      simp only [absolute_cons, List.map_cons, Nat.add_zero]
      rw [hsum, ih, ← hsum, Nat.max_eq_right (by omega)]
    · next h =>
      have hsum : base + ticks + (x.2 - ticks) = base + x.2 := by omega
      simp only [absolute_cons, List.map_cons, hsum]
      rw [Nat.max_eq_left (by omega)]
      congr 1
      have hlate : ∀ y ∈ absolute (base + x.2) q, max y.2 (base + ticks) = y.2 := by
        intro y hy
        have := le_absolute hy
        exact Nat.max_eq_left (by omega)
      rw [List.map_congr_left (fun y hy => by rw [hlate y hy])]
      exact (List.map_id _).symm

/-! ## Times that were asked for -/

/-- No item comes before the time that was asked for it. -/
def Meets (asked : α → Nat) (base : Nat) (q : List (α × Nat)) : Prop := ∀ x ∈ absolute base q, asked x.1 ≤ x.2

section Meets
variable {asked : α → Nat} {base' : Nat}

@[simp] theorem meets_nil : Meets asked base [] := fun _ h => nomatch h

@[simp] theorem meets_cons {x : α × Nat} :
    Meets asked base (x :: q) ↔ asked x.1 ≤ base + x.2 ∧ Meets asked (base + x.2) q := by
  simp [Meets]

theorem meets_append : Meets asked base (p ++ q) ↔ Meets asked base p ∧ Meets asked (base + total p) q := by
  simp only [Meets, absolute_append, List.forall_mem_append]

/-- A later start does no harm. -/
theorem Meets.mono (h : Meets asked base q) (hb : base ≤ base') : Meets asked base' q := by
  induction q generalizing base base' with
  | nil => exact meets_nil
  | cons x q ih =>
    rw [meets_cons] at h ⊢
    exact ⟨by omega, ih h.2 (by omega)⟩

theorem Meets.catchUp (h : Meets asked base q) (hb : base + ticks ≤ base') : Meets asked base' (catchUp ticks q) := by
  refine Meets.mono (fun x hx => ?_) hb
  rw [absolute_catchUp] at hx
  obtain ⟨y, hy, rfl⟩ := List.mem_map.1 hx
  exact Nat.le_trans (h y hy) (Nat.le_max_left _ _)

/-- The items behind the time `r`, of which the base has passed. -/
theorem Meets.mapHead_sub (h : Meets asked base q) (hr : AtLeast r q) (hb : base + r ≤ base') :
    Meets asked base' (mapHead (· - r) q) := by
  refine Meets.mono (fun x hx => ?_) hb
  rw [absolute_mapHead_sub hr] at hx
  exact h x hx

theorem Meets.le_total (h : Meets asked base q) {x : α × Nat} (hx : x ∈ q) : asked x.1 ≤ base + total q := by
  have hm : x.1 ∈ (absolute base q).map Prod.fst := by
    rw [map_fst_absolute]
    exact List.mem_map_of_mem hx
  obtain ⟨y, hy, hyx⟩ := List.mem_map.1 hm
  rw [← hyx]
  exact Nat.le_trans (h y hy) (absolute_le hy)

/-- A time is asked for another item. -/
theorem Meets.update [DecidableEq α] (h : Meets asked base q) {a : α} (ha : a ∉ q.map Prod.fst) (time : Nat) :
    Meets (Function.update asked a time) base q := by
  intro x hx
  have hxq : x.1 ∈ q.map Prod.fst := by
    rw [← map_fst_absolute base]
    exact List.mem_map_of_mem hx
  have hxa : x.1 ≠ a := fun he => ha (he ▸ hxq)
  rw [Function.update_of_ne hxa]
  exact h x hx

end Meets

end DeltaQueue
