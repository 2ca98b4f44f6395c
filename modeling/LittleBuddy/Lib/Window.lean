import Mathlib.Algebra.BigOperators.Fin
import Mathlib.Data.Fintype.EquivFin
import Mathlib.Data.Nat.ModEq
import Mathlib.Logic.Function.Basic
import Mathlib.Tactic.Common
/-!
# A window of the latest values

The latest `n` of a sequence of values, each written to the slot that a counter
gives modulo `n`. The counter wraps, at a number that need not be a multiple of
`n`, so that the slots hold the latest values once it is `n` or more.
-/

namespace Window

/-- The slots, and the counter of the values that were written since it has wrapped. -/
@[ext] structure Slots (α : Type) (n : Nat) where
  counter : Nat
  slot : Fin n → α

variable {α β : Type} {n : Nat} [NeZero n]

/-- A value is written. -/
def Slots.push (wrap : Nat) (s : Slots α n) (v : α) : Slots α n where
  counter := (s.counter + 1) % wrap
  slot := Function.update s.slot (Fin.ofNat n s.counter) v

/-- All of these are written. -/
def Slots.pushAll (wrap : Nat) (s : Slots α n) (vs : List α) : Slots α n := vs.foldl (Slots.push wrap) s

variable {wrap : Nat} {s : Slots α n} {vs : List α} {j : Nat}

theorem pushAll_snoc (vs : List α) (v : α) : s.pushAll wrap (vs ++ [v]) = (s.pushAll wrap vs).push wrap v := by
  rw [Slots.pushAll, List.foldl_append]
  rfl

theorem slot_push (s : Slots α n) (v : α) : (s.push wrap v).slot = Function.update s.slot (Fin.ofNat n s.counter) v := rfl

theorem counter_pushAll (wrap : Nat) (hs : s.counter = 0) (vs : List α) : (s.pushAll wrap vs).counter = vs.length % wrap := by
  induction vs using List.reverseRecOn with
  | nil => rw [List.length_nil, Nat.zero_mod, ← hs]; rfl
  | append_singleton vs v ih => rw [pushAll_snoc, Slots.push, ih, Nat.mod_add_mod, List.length_append, List.length_singleton]

/-- The slots behind the counter have the latest values. -/
theorem slot_pushAll (hs : s.counter = 0) (vs : List α) (hj : j < (s.pushAll wrap vs).counter) (hn : j < n) :
    vs.reverse[j]? = some ((s.pushAll wrap vs).slot (Fin.ofNat n ((s.pushAll wrap vs).counter - 1 - j))) := by
  induction vs using List.reverseRecOn generalizing j with
  | nil =>
    have : (s.pushAll wrap []).counter = 0 := hs
    omega
  | append_singleton vs v ih =>
    rw [pushAll_snoc] at hj ⊢
    -- the counter has not wrapped, as it is not zero
    have hcounter : (s.pushAll wrap vs).counter + 1 = ((s.pushAll wrap vs).push wrap v).counter := by
      have hpush : ((s.pushAll wrap vs).push wrap v).counter = ((s.pushAll wrap vs).counter + 1) % wrap := rfl
      have hmod : (s.pushAll wrap vs).counter = vs.length % wrap := counter_pushAll wrap hs vs
      rw [hpush] at hj ⊢
      rcases Nat.eq_zero_or_pos wrap with rfl | hwrap
      · rw [Nat.mod_zero]
      · have hlt := Nat.mod_lt vs.length hwrap
        rcases Nat.lt_or_eq_of_le (show (s.pushAll wrap vs).counter + 1 ≤ wrap by omega) with hlt | heq
        · rw [Nat.mod_eq_of_lt hlt]
        · rw [heq, Nat.mod_self] at hj
          cases hj
    rw [← hcounter] at hj ⊢
    rw [List.reverse_append, List.reverse_singleton, List.singleton_append, Nat.add_sub_cancel]
    cases j with
    | zero =>
      rw [List.getElem?_cons_zero, Nat.sub_zero, slot_push, Function.update_self]
    | succ j =>
      rw [List.getElem?_cons_succ, ih (Nat.lt_of_succ_lt_succ hj) (Nat.lt_of_succ_lt hn), slot_push, Function.update_of_ne]
      · rw [Nat.sub_sub, Nat.add_comm 1 j]
      · -- two slots that are less than `n` apart
        intro heq
        have heq : ((s.pushAll wrap vs).counter - (j + 1)) % n = (s.pushAll wrap vs).counter % n := congrArg Fin.val heq
        obtain ⟨k, hk⟩ : ∃ k, (s.pushAll wrap vs).counter = k + (j + 1) := ⟨_, (Nat.sub_add_cancel (by omega)).symm⟩
        rw [hk, Nat.add_sub_cancel] at heq
        have hmod : (j + 1) % n = 0 := by
          have hzero : Nat.ModEq n (k + 0) (k + (j + 1)) := heq
          exact (Nat.ModEq.add_left_cancel' k hzero).symm
        rw [Nat.mod_eq_of_lt hn] at hmod
        cases hmod

/-- Once the window is full, a sum over its slots is one over the latest values. -/
theorem sum_pushAll [AddCommMonoid β] (wrap : Nat) (f : α → β) (hs : s.counter = 0) (vs : List α)
    (hfull : n ≤ (s.pushAll wrap vs).counter) :
    ∑ p, f ((s.pushAll wrap vs).slot p) = ((vs.reverse.take n).map f).sum := by
  obtain ⟨t, ht⟩ : ∃ t, t = s.pushAll wrap vs := ⟨_, rfl⟩
  have hslot : ∀ j < n, vs.reverse[j]? = some (t.slot (Fin.ofNat n (t.counter - 1 - j))) := fun j hj => by
    rw [ht]
    exact slot_pushAll hs vs (Nat.lt_of_lt_of_le hj hfull) hj
  rw [← ht] at hfull ⊢
  have hinj : Function.Injective fun j : Fin n => Fin.ofNat n (t.counter - 1 - j) := by
    intro i j heq
    have heq : (t.counter - 1 - i) % n = (t.counter - 1 - j) % n := congrArg Fin.val heq
    have hi := i.isLt
    have hj := j.isLt
    obtain ⟨k, hk⟩ : ∃ k, t.counter = k + n := ⟨_, (Nat.sub_add_cancel hfull).symm⟩
    have hmod : Nat.ModEq n (k + (n - 1 - i)) (k + (n - 1 - j)) := by
      rw [show k + (n - 1 - i) = t.counter - 1 - i by omega, show k + (n - 1 - j) = t.counter - 1 - j by omega]
      exact heq
    have hcancel : (n - 1 - i) % n = (n - 1 - j) % n := Nat.ModEq.add_left_cancel' k hmod
    rw [Nat.mod_eq_of_lt (by omega), Nat.mod_eq_of_lt (by omega)] at hcancel
    exact Fin.ext (by omega)
  rw [← (Finite.injective_iff_bijective.mp hinj).sum_comp fun p => f (t.slot p), ← List.sum_ofFn]
  congr 1
  apply List.ext_getElem?
  intro j
  rw [List.getElem?_ofFn, List.getElem?_map, List.getElem?_take]
  by_cases hj : j < n
  · rw [dif_pos hj, if_pos hj, hslot j hj]
    rfl
  · rw [dif_neg hj, if_neg hj]
    rfl

end Window
