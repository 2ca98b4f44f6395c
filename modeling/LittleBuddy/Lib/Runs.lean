/-!
# Runs of a step function

A `Run` is a sequence of events, each fired by a partial step function in a
state that satisfies a condition. A property of every `Run` holds in every
state that such a sequence reaches.
-/

namespace Runs

variable {σ ε : Type}

/-- Runs from an initial state: the state after the events, and the events. -/
inductive Run (step : ε → σ → Option σ) (cond : ε → σ → Prop) (init : σ → Prop) : σ → List ε → Prop
  | nil {s} : init s → Run step cond init s []
  | snoc {s s' evs e} : Run step cond init s evs → cond e s → step e s = some s' →
      Run step cond init s' (evs ++ [e])

/-- The state after a list of events, if every step is defined and passes the check. -/
def runAll (step : ε → σ → Option σ) (check : ε → σ → Bool) : List ε → σ → Option σ
  | [], s => some s
  | e :: evs, s => if check e s then (step e s).bind (runAll step check evs) else none

variable {step : ε → σ → Option σ} {cond : ε → σ → Prop} {init : σ → Prop}

/-- An invariant kept by every step holds after every run. -/
theorem Run.inv (I : σ → Prop) (h0 : ∀ s, init s → I s)
    (hs : ∀ e s s', I s → cond e s → step e s = some s' → I s') {s : σ} {evs : List ε}
    (h : Run step cond init s evs) : I s := by
  induction h with
  | nil h => exact h0 _ h
  | snoc _ hc ht ih => exact hs _ _ _ ih hc ht

/-- A run under a condition is one under a weaker condition. -/
theorem Run.mono {cond' : ε → σ → Prop} (hcond : ∀ e s, cond e s → cond' e s) {s : σ} {evs : List ε}
    (h : Run step cond init s evs) : Run step cond' init s evs := by
  induction h with
  | nil h => exact .nil h
  | snoc _ hc ht ih => exact ih.snoc (hcond _ _ hc) ht

/-- A computed run is a run. -/
theorem Run.of_runAll {check : ε → σ → Bool} (hcheck : ∀ e s, check e s = true → cond e s) {evs : List ε} {s₀ s : σ}
    {evs₀ : List ε} (h : Run step cond init s₀ evs₀) (hr : runAll step check evs s₀ = some s) :
    Run step cond init s (evs₀ ++ evs) := by
  induction evs generalizing s₀ evs₀ with
  | nil =>
    cases hr
    simpa using h
  | cons e evs ih =>
    rw [runAll] at hr
    split at hr
    · rename_i hc
      obtain ⟨s₁, h₁, hr⟩ := Option.bind_eq_some_iff.1 hr
      have := ih (h.snoc (hcheck e s₀ hc) h₁) hr
      rwa [List.append_assoc] at this
    · cases hr

theorem runAll_append {check : ε → σ → Bool} (evs evs' : List ε) (s : σ) :
    runAll step check (evs ++ evs') s = (runAll step check evs s).bind (runAll step check evs') := by
  induction evs generalizing s with
  | nil => rfl
  | cons e evs ih =>
    rw [List.cons_append, runAll, runAll]
    split
    · cases step e s with
      | none => rfl
      | some s₁ => exact ih s₁
    · rfl

/-- A run whose steps, seen through `view`, are those of another step function is
a run of that function. -/
theorem Run.simulates {σ' ε' : Type} {step' : ε' → σ' → Option σ'} (view : σ → σ') (event : ε → ε') (first : σ')
    (I : σ → Prop) (hinv : ∀ s evs, Run step cond init s evs → I s) (h0 : ∀ s, init s → view s = first)
    (hs : ∀ e s s', I s → cond e s → step e s = some s' → step' (event e) (view s) = some (view s')) {s : σ}
    {evs : List ε} (h : Run step cond init s evs) :
    runAll step' (fun _ _ => true) (evs.map event) first = some (view s) := by
  induction h with
  | nil h => exact congrArg some (h0 _ h).symm
  | snoc hrun hc ht ih =>
    rw [List.map_append, runAll_append, ih, Option.bind_some, List.map_singleton, runAll, if_pos rfl,
      hs _ _ _ (hinv _ _ hrun) hc ht]
    rfl

/-- A run that is computed step by step. -/
theorem exists_run_of_check (step : ε → σ → Option σ) (cond : ε → σ → Prop) [∀ e s, Decidable (cond e s)]
    (init : σ → Prop) (first : Option σ) (evs : List ε) (good : σ → Bool) (hinit : ∀ s, first = some s → init s)
    (h : (first.bind (runAll step (fun e s => decide (cond e s)) evs)).any good = true) :
    ∃ s, Run step cond init s evs ∧ good s = true := by
  obtain ⟨s, hs, hg⟩ := (Option.any_eq_true good _).1 h
  obtain ⟨s₀, h₀, hs⟩ := Option.bind_eq_some_iff.1 hs
  have hrun : Run step cond init s₀ [] := .nil (hinit s₀ h₀)
  exact ⟨s, hrun.of_runAll (fun _ _ => of_decide_eq_true) hs, hg⟩

end Runs
