import Mathlib.Tactic.Common
/-!
# Loops with the test at the end

`step` is the body of a loop and says whether the loop goes on. `doWhile` runs it with
fuel; that a loop `Ends` says that it needs a finite number of rounds, and what holds of
each of them and behind the last one.
-/

namespace DoWhile

variable {σ : Type} {step : σ → σ × Bool} {good : σ → σ → Prop} {last : σ → Prop} {s : σ}

/-- `while (step());` ends in a state as `last` says, and each call of `step` is as `good` says. -/
inductive Ends (step : σ → σ × Bool) (good : σ → σ → Prop) (last : σ → Prop) : σ → Prop
  | stop {s : σ} : good s (step s).1 → (step s).2 = false → last (step s).1 → Ends step good last s
  | again {s : σ} : good s (step s).1 → (step s).2 = true → Ends step good last (step s).1 → Ends step good last s

theorem Ends.first (h : Ends step good last s) : good s (step s).1 := by
  cases h with
  | stop hgood => exact hgood
  | again hgood => exact hgood

/-- A loop whose calls keep `I` and, where they ask for another one, lower `variant`. -/
theorem Ends.of_variant (I : σ → Prop) (variant : σ → Nat) (hgood : ∀ s, I s → good s (step s).1)
    (hlast : ∀ s, I s → (step s).2 = false → last (step s).1)
    (hagain : ∀ s, I s → (step s).2 = true → I (step s).1 ∧ variant (step s).1 < variant s) (hs : I s) :
    Ends step good last s := by
  obtain ⟨n, hn⟩ : ∃ n, n = variant s := ⟨_, rfl⟩
  induction n using Nat.strongRecOn generalizing s with
  | ind n ih =>
    cases hmore : (step s).2 with
    | false => exact .stop (hgood s hs) hmore (hlast s hs hmore)
    | true =>
      obtain ⟨hnext, hlt⟩ := hagain s hs hmore
      exact .again (hgood s hs) hmore (ih _ (hn ▸ hlt) hnext rfl)

/-- What every call keeps and excludes the end, excludes that the loop ends. -/
theorem Ends.absurd (h : Ends step good last s) (I : σ → Prop) (hI : ∀ s, I s → I (step s).1)
    (hlast : ∀ s, I s → ¬last s) : ¬I s := by
  induction h with
  | stop _ _ hend => exact fun hs => hlast _ (hI _ hs) hend
  | again _ _ _ ih => exact fun hs => ih (hI _ hs)

/-- The state behind the loop, if `fuel` rounds are enough. -/
def doWhile (step : σ → σ × Bool) : Nat → σ → Option σ
  | 0, _ => none
  | fuel + 1, s => if (step s).2 then doWhile step fuel (step s).1 else some (step s).1

/-- A loop that ends gives the same state with any fuel that is enough. -/
theorem Ends.doWhile (h : Ends step good last s) : ∃ n s', last s' ∧ ∀ fuel, n ≤ fuel → doWhile step fuel s = some s' := by
  induction h with
  | stop _ hmore hlast =>
    refine ⟨1, _, hlast, fun fuel hfuel => ?_⟩
    obtain ⟨fuel, rfl⟩ : ∃ n, fuel = n + 1 := ⟨fuel - 1, by omega⟩
    rw [DoWhile.doWhile, hmore]
    rfl
  | again _ hmore _ ih =>
    obtain ⟨n, s', hlast, hrun⟩ := ih
    refine ⟨n + 1, s', hlast, fun fuel hfuel => ?_⟩
    obtain ⟨fuel, rfl⟩ : ∃ n, fuel = n + 1 := ⟨fuel - 1, by omega⟩
    rw [DoWhile.doWhile, if_pos hmore]
    exact hrun fuel (by omega)

end DoWhile
