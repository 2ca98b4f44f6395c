import Mathlib.Data.Finset.Lattice.Fold
import Mathlib.Data.Fintype.Basic
/-!
# Arbiters: the largest of many requests, cached

Each of finitely many users asks for a level. A user whose level is the largest
is kept aside, so that most changes of a request need no look at the others.
-/

namespace Arbiter

variable {ι α : Type} [LinearOrder α]

/-- `u` asks for the largest level. -/
def Top (r : ι → α) (u : ι) : Prop := ∀ v, r v ≤ r u

theorem Top.sup_eq [Fintype ι] [OrderBot α] {r : ι → α} {u : ι} (h : Top r u) : Finset.univ.sup r = r u := by
  apply le_antisymm
  · exact Finset.sup_le fun v _ => h v
  · exact Finset.le_sup (Finset.mem_univ u)

/-! ## A request changes -/

section Update

variable [DecidableEq ι] {r : ι → α} {t u : ι} {a : α}

/-- A request that is not below the largest so far is on top. -/
theorem Top.raise (h : ∀ v, r v ≤ a) : Top (Function.update r u a) u := by
  intro v
  rw [Function.update_self]
  by_cases hv : v = u
  · rw [hv, Function.update_self]
  · rw [Function.update_of_ne hv]
    exact h v

/-- A request below the top of another user leaves this user on top. -/
theorem Top.keep (h : Top r t) (hne : t ≠ u) (ha : a ≤ r t) : Top (Function.update r u a) t := by
  intro v
  rw [Function.update_of_ne hne]
  by_cases hv : v = u
  · rwa [hv, Function.update_self]
  · rw [Function.update_of_ne hv]
    exact h v

end Update

/-! ## A scan for the top -/

/-- The first largest level among `best` and those of `is`, with its user. -/
def scan (r : ι → α) (best : α × ι) (is : List ι) : α × ι :=
  is.foldl (fun best i => if best.1 < r i then (r i, i) else best) best

variable {r : ι → α}

/-- A scan ends at a user with its level that is not below any of those it has seen. -/
theorem scan_spec (is : List ι) (best : α × ι) (hbest : best.1 = r best.2) :
    (scan r best is).1 = r (scan r best is).2 ∧ best.1 ≤ (scan r best is).1 ∧ ∀ i ∈ is, r i ≤ (scan r best is).1 := by
  induction is generalizing best with
  | nil => exact ⟨hbest, le_refl _, by simp⟩
  | cons i is ih =>
    rw [scan, List.foldl_cons, ← scan]
    split
    · rename_i hlt
      obtain ⟨hr, hle, hall⟩ := ih (r i, i) rfl
      refine ⟨hr, hlt.le.trans hle, ?_⟩
      simp only [List.mem_cons, forall_eq_or_imp]
      exact ⟨hle, hall⟩
    · rename_i hlt
      obtain ⟨hr, hle, hall⟩ := ih best hbest
      refine ⟨hr, hle, ?_⟩
      simp only [List.mem_cons, forall_eq_or_imp]
      exact ⟨(not_lt.1 hlt).trans hle, hall⟩

/-- A scan of all users from one of them finds the top. -/
theorem scan_top (u : ι) (is : List ι) (hall : ∀ v, v = u ∨ v ∈ is) : Top r (scan r (r u, u) is).2 := by
  obtain ⟨hr, hle, hmem⟩ := scan_spec is (r u, u) rfl
  intro v
  rw [← hr]
  rcases hall v with rfl | hv
  · exact hle
  · exact hmem v hv

theorem scan_fst (u : ι) (is : List ι) : (scan r (r u, u) is).1 = r (scan r (r u, u) is).2 :=
  (scan_spec is (r u, u) rfl).1

end Arbiter
