import Mathlib.Data.List.Basic
import Mathlib.Tactic.Common
/-!
# A record kept in two copies

A record in RAM is saved in a main and a backup copy. A save rewrites the main
copy from RAM and then the backup copy from the main copy. While a copy is
being rewritten, a power cut may leave anything in it. Booting takes the main
copy if it is valid, else the backup copy, else a default record.

Three properties of such a store: one copy is always valid (`Guarded`), booting
never goes back to an older version (`Monotone`), and a store at rest holds the
record (`Saved`). The first holds of every run, the others under the conditions
that their step lemmas name.
-/

namespace TwoCopy

inductive Phase where
  | idle | mainErased | mainWritten | mainDone | bakErased
  deriving DecidableEq

/-- The store. A copy is what it holds once all that is queued has been
executed; `none` is a copy without a valid record. -/
structure Store (α : Type) where
  phase : Phase
  main : Option α
  bak : Option α
  ram : α
  /-- A save has been asked for. -/
  update : Bool
  /-- The record has changed since a save was last asked for. -/
  awaiting : Bool

variable {α : Type}

/-- The record is changed. -/
def Store.mutate (s : Store α) (r : α) : Store α := { s with ram := r, awaiting := true }

/-- A save is asked for. -/
def Store.request (s : Store α) : Store α := { s with update := true, awaiting := false }

/-- The request is taken back, some time after the main copy was written. -/
def Store.clear (s : Store α) : Store α := { s with update := false }

/-- The steps of a save. -/
inductive Step : Store α → Store α → Prop
  | eraseMain {s} : s.phase = .idle → s.update = true → Step s { s with phase := .mainErased, main := none }
  | writeMain {s} (u : Bool) : s.phase = .mainErased → (u = true → s.update = true) →
    Step s { s with phase := .mainWritten, main := some s.ram, update := u }
  | mainDone {s} : s.phase = .mainWritten → Step s { s with phase := .mainDone }
  | eraseBak {s} : s.phase = .mainDone → Step s { s with phase := .bakErased, bak := none }
  | copyBak {s} (b : Option α) : s.phase = .bakErased → Step s { s with bak := b }
  | finish {s} : s.phase = .bakErased → s.bak = s.main → Step s { s with phase := .idle }

/-- What the two copies hold after a power cut. -/
structure Found (s : Store α) (m b : Option α) : Prop where
  main : s.phase ≠ .mainErased → s.phase ≠ .mainWritten → m = s.main
  bak : s.phase ≠ .bakErased → b = s.bak

/-- The record that booting takes. -/
def recovered (dflt : α) (m b : Option α) : α := m.getD (b.getD dflt)

/-- The store after booting. -/
def boot (dflt : α) (m b : Option α) : Store α where
  phase := if m.isSome && b.isNone then .mainDone else .idle
  main := m
  bak := b
  ram := recovered dflt m b
  update := !(m.isSome && b.isSome)
  awaiting := false

/-! ## One copy is valid -/

/-- The copy that is not being rewritten is valid, and so is a written one. -/
def Guarded (s : Store α) : Prop :=
  match s.phase with
  | .idle | .mainErased => s.bak.isSome = true
  | .mainWritten => s.bak.isSome = true ∧ s.main.isSome = true
  | .mainDone | .bakErased => s.main.isSome = true

theorem Step.guarded {s s' : Store α} (h : Step s s') (hg : Guarded s) : Guarded s' := by
  cases h with
  | eraseMain hp hu => simpa [Guarded, hp] using hg
  | writeMain u hp hu => simpa [Guarded, hp] using hg
  | mainDone hp =>
    have : s.bak.isSome = true ∧ s.main.isSome = true := by simpa [Guarded, hp] using hg
    exact this.2
  | eraseBak hp => simpa [Guarded, hp] using hg
  | copyBak b hp => simpa [Guarded, hp] using hg
  | finish hp hb =>
    have : s.main.isSome = true := by simpa [Guarded, hp] using hg
    simp only [Guarded, hb, this]

theorem Guarded.mutate {s : Store α} (h : Guarded s) (r : α) : Guarded (s.mutate r) := h
theorem Guarded.request {s : Store α} (h : Guarded s) : Guarded s.request := h
theorem Guarded.clear {s : Store α} (h : Guarded s) : Guarded s.clear := h

/-- A power cut leaves a valid copy. -/
theorem Guarded.found {s : Store α} (h : Guarded s) {m b : Option α} (hf : Found s m b) :
    m.isSome = true ∨ b.isSome = true := by
  unfold Guarded at h
  cases hp : s.phase <;> rw [hp] at h
  · exact .inr (by rw [hf.bak (by simp [hp])]; exact h)
  · exact .inr (by rw [hf.bak (by simp [hp])]; exact h)
  · exact .inr (by rw [hf.bak (by simp [hp])]; exact h.1)
  · exact .inl (by rw [hf.main (by simp [hp]) (by simp [hp])]; exact h)
  · exact .inl (by rw [hf.main (by simp [hp]) (by simp [hp])]; exact h)

theorem guarded_boot {dflt : α} {m b : Option α} (h : m.isSome = true ∨ b.isSome = true) : Guarded (boot dflt m b) := by
  cases m <;> cases b <;> simp_all [Guarded, boot]

/-! ## Booting never goes back -/

/-- The versions that the record has had, oldest first, and the number of the
newest version that was booted from or whose main copy was completed. -/
structure Ages (α : Type) where
  hist : List α
  floor : Nat

/-- The record in RAM is a new version. -/
def Ages.mutate (g : Ages α) (r : α) : Ages α := { g with hist := g.hist ++ [r] }

/-- `a` is a version from the floor on. -/
def Ages.NotOlder (g : Ages α) (a : α) : Prop := a ∈ g.hist.drop g.floor

instance [DecidableEq α] (g : Ages α) (a : α) : Decidable (g.NotOlder a) :=
  inferInstanceAs (Decidable (a ∈ g.hist.drop g.floor))

theorem Ages.NotOlder.floor_le {g : Ages α} {a : α} (h : g.NotOlder a) : g.floor ≤ g.hist.length := by
  unfold NotOlder at h
  by_contra hc
  rw [List.drop_eq_nil_of_le (by omega)] at h
  cases h

theorem Ages.NotOlder.append {g : Ages α} {a : α} (h : g.NotOlder a) (r : α) : (g.mutate r).NotOlder a := by
  have hle := h.floor_le
  unfold NotOlder mutate at *
  rw [List.drop_append_of_le_length hle]
  exact List.mem_append_left _ h

theorem mem_drop_of_le {a : α} {l : List α} {j k : Nat} (h : a ∈ l.drop k) (hjk : j ≤ k) : a ∈ l.drop j :=
  List.drop_subset_drop_left l hjk h

/-- The main copy, if it is complete: nothing is queued for it. -/
def Store.settled (s : Store α) : Option α :=
  match s.phase with
  | .mainErased | .mainWritten => none
  | .idle | .mainDone | .bakErased => s.main

section Monotone
variable [DecidableEq α]

/-- The number of the newest version in `hist` (oldest first) that is `a`. -/
def newest (a : α) : List α → Nat
  | [] => 0
  | _ :: l => if a ∈ l then newest a l + 1 else 0

theorem newest_spec {a : α} {l : List α} {k : Nat} (h : a ∈ l.drop k) : k ≤ newest a l ∧ a ∈ l.drop (newest a l) := by
  induction l generalizing k with
  | nil => simp at h
  | cons x l ih =>
    unfold newest
    cases k with
    | zero =>
      split
      · rename_i hm
        exact ⟨Nat.zero_le _, (ih (k := 0) (by simpa using hm)).2⟩
      · exact ⟨Nat.le_refl _, h⟩
    | succ k =>
      have hk : a ∈ l.drop k := h
      rw [if_pos (List.mem_of_mem_drop hk)]
      exact ⟨Nat.succ_le_succ (ih hk).1, (ih hk).2⟩

theorem mem_drop_newest {a : α} {l : List α} {k : Nat} (h : a ∈ l) (hk : k ≤ newest a l) : a ∈ l.drop k :=
  mem_drop_of_le (newest_spec (k := 0) (by simpa using h)).2 hk

theorem newest_lt {a : α} {l : List α} (h : a ∈ l) : newest a l < l.length := by
  have := (newest_spec (k := 0) (by simpa using h)).2
  by_contra hc
  rw [List.drop_eq_nil_of_le (Nat.le_of_not_lt hc)] at this
  cases this

theorem newest_append_self (r : α) (l : List α) : newest r (l ++ [r]) = l.length := by
  induction l with
  | nil => simp [newest]
  | cons x l ih => simp [newest, ih]

/-- Appending a version raises no number above the new one. -/
theorem newest_append_le {a : α} (r : α) {l : List α} (h : a ∈ l) : newest a (l ++ [r]) ≤ newest r (l ++ [r]) := by
  rw [newest_append_self]
  have := newest_lt (List.mem_append_left [r] h)
  simp at this
  omega

/-- Raises the floor to a completed main copy. -/
def Ages.complete (g : Ages α) (m : Option α) : Ages α :=
  match m with
  | some a => { g with floor := max g.floor (newest a g.hist) }
  | none => g

/-- The record `a` has been recovered. -/
def Ages.boot (g : Ages α) (a : α) : Ages α :=
  let hist := if a ∈ g.hist then g.hist else g.hist ++ [a]
  ⟨hist, max g.floor (newest a hist)⟩

/-- Everything that a boot may take is recent enough. -/
structure Monotone (dflt : α) (s : Store α) (g : Ages α) : Prop where
  ram : g.NotOlder s.ram
  main : ∀ a, s.main = some a → g.NotOlder a ∧ newest a g.hist ≤ newest s.ram g.hist
  bak : s.phase ≠ .mainDone → s.phase ≠ .bakErased → g.NotOlder (s.bak.getD dflt)
  erased : s.phase = .mainErased → s.main = none
  written : s.phase ≠ .mainErased → s.phase ≠ .idle → s.main ≠ none
  same : s.phase = .idle → s.main = none ∨ s.main = s.bak

/-- The floor may be raised to the main copy. -/
theorem Monotone.complete {dflt : α} {s : Store α} {g : Ages α} (h : Monotone dflt s g) :
    Monotone dflt s (g.complete s.settled) := by
  cases hs : s.settled with
  | none => exact h
  | some a =>
    have hm : s.main = some a := by
      unfold Store.settled at hs
      split at hs
      · cases hs
      · cases hs
      all_goals exact hs
    obtain ⟨ha, hle⟩ := h.main a hm
    have hup : ∀ b, g.NotOlder b → newest a g.hist ≤ newest b g.hist → (g.complete (some a)).NotOlder b := by
      intro b hb hab
      exact mem_drop_newest (List.mem_of_mem_drop hb) (Nat.max_le.2 ⟨(newest_spec hb).1, hab⟩)
    refine ⟨hup _ h.ram hle, fun b hb => ?_, fun hp₁ hp₂ => ?_, h.erased, h.written, h.same⟩
    · rw [hm] at hb
      cases hb
      exact ⟨hup _ ha (Nat.le_refl _), hle⟩
    · have hidle : s.phase = .idle := by
        unfold Store.settled at hs
        split at hs <;> simp_all
      have hbak : s.bak = some a := by
        rcases h.same hidle with hn | hn
        · rw [hm] at hn; cases hn
        · rw [← hn, hm]
      rw [hbak, Option.getD_some]
      exact hup _ ha (Nat.le_refl _)

theorem Step.monotone {dflt : α} {s s' : Store α} {g : Ages α} (h : Step s s') (hm : Monotone dflt s g) :
    Monotone dflt s' g := by
  cases h with
  | eraseMain hp =>
    refine ⟨hm.ram, by simp, fun _ _ => hm.bak (by simp [hp]) (by simp [hp]), fun _ => rfl, by simp, by simp⟩
  | writeMain u hp =>
    refine ⟨hm.ram, fun a ha => ?_, fun _ _ => hm.bak (by simp [hp]) (by simp [hp]), by simp, by simp, by simp⟩
    cases ha
    exact ⟨hm.ram, Nat.le_refl _⟩
  | mainDone hp =>
    exact ⟨hm.ram, hm.main, by simp, by simp, fun _ _ => hm.written (by simp [hp]) (by simp [hp]), by simp⟩
  | eraseBak hp =>
    exact ⟨hm.ram, hm.main, by simp, by simp, fun _ _ => hm.written (by simp [hp]) (by simp [hp]), by simp⟩
  | copyBak b hp => exact ⟨hm.ram, hm.main, by simp [hp], hm.erased, hm.written, by simp [hp]⟩
  | finish hp hb =>
    refine ⟨hm.ram, hm.main, fun _ _ => ?_, by simp, by simp, fun _ => .inr hb.symm⟩
    have hne : s.main ≠ none := hm.written (by simp [hp]) (by simp [hp])
    obtain ⟨a, ha⟩ := Option.ne_none_iff_exists'.1 hne
    simp only [hb, ha, Option.getD_some]
    exact (hm.main a ha).1

theorem Monotone.request {dflt : α} {s : Store α} {g : Ages α} (h : Monotone dflt s g) : Monotone dflt s.request g :=
  ⟨h.ram, h.main, h.bak, h.erased, h.written, h.same⟩

theorem Monotone.clear {dflt : α} {s : Store α} {g : Ages α} (h : Monotone dflt s g) : Monotone dflt s.clear g :=
  ⟨h.ram, h.main, h.bak, h.erased, h.written, h.same⟩

/-- A mutation makes the newest version. -/
theorem Monotone.mutate {dflt : α} {s : Store α} {g : Ages α} (hm : Monotone dflt s g) (r : α) :
    Monotone dflt (s.mutate r) (g.mutate r) := by
  have hfl := hm.ram.floor_le
  refine ⟨?_, fun a ha => ⟨(hm.main a ha).1.append r, ?_⟩, fun h₁ h₂ => (hm.bak h₁ h₂).append r, hm.erased, hm.written,
    hm.same⟩
  · refine mem_drop_newest (by simp [Ages.mutate, Store.mutate]) ?_
    simp only [Ages.mutate, Store.mutate]
    rwa [newest_append_self]
  · exact newest_append_le r (List.mem_of_mem_drop (hm.main a ha).1)

/-- What a boot must find: two valid copies are the same record, and a main copy
that was being rewritten is valid only as a whole, if there is no backup. -/
structure Sound (s : Store α) (m b : Option α) : Prop where
  same : ∀ a c, m = some a → b = some c → a = c
  whole : ∀ a, m = some a → b = none → s.main = some a

/-- The record that a boot takes is not older than the floor. -/
theorem Monotone.recovered {dflt : α} {s : Store α} {g : Ages α} (h : Monotone dflt s g) {m b : Option α}
    (hf : Found s m b) (hs : Sound s m b) : g.NotOlder (recovered dflt m b) := by
  unfold TwoCopy.recovered
  cases m with
  | some a =>
    rw [Option.getD_some]
    cases b with
    | none => exact (h.main a (hs.whole a rfl rfl)).1
    | some c =>
      have hac : a = c := hs.same a c rfl rfl
      subst hac
      by_cases hp : s.phase = .mainErased ∨ s.phase = .mainWritten
      · have hb : s.bak = some a := (hf.bak (by rcases hp with hp | hp <;> simp [hp])).symm
        have := h.bak (by rcases hp with hp | hp <;> simp [hp]) (by rcases hp with hp | hp <;> simp [hp])
        rwa [hb] at this
      · obtain ⟨h₁, h₂⟩ := not_or.1 hp
        exact (h.main a (hf.main h₁ h₂).symm).1
  | none =>
    rw [Option.getD_none]
    have hp₁ : s.phase ≠ .mainDone := fun hp =>
      h.written (by simp [hp]) (by simp [hp]) (hf.main (by simp [hp]) (by simp [hp])).symm
    have hp₂ : s.phase ≠ .bakErased := fun hp =>
      h.written (by simp [hp]) (by simp [hp]) (hf.main (by simp [hp]) (by simp [hp])).symm
    rw [hf.bak hp₂]
    exact h.bak hp₁ hp₂

/-- After a boot that has found the record `a`, everything starts from `a`. -/
theorem monotone_boot (dflt : α) {m b : Option α} (g : Ages α) (hg : g.floor ≤ g.hist.length)
    (hsame : ∀ a c, m = some a → b = some c → a = c)
    (hr : TwoCopy.recovered dflt m b ∈ g.hist → g.NotOlder (TwoCopy.recovered dflt m b)) :
    Monotone dflt (boot dflt m b) (g.boot (TwoCopy.recovered dflt m b)) := by
  generalize hrec : TwoCopy.recovered dflt m b = a at *
  have hmem : a ∈ (g.boot a).hist := by
    unfold Ages.boot
    split
    · assumption
    · simp
  have hfloor : (g.boot a).floor ≤ newest a (g.boot a).hist := by
    unfold Ages.boot at hmem ⊢
    simp only at hmem ⊢
    refine Nat.max_le.2 ⟨?_, Nat.le_refl _⟩
    split
    · rename_i hin
      exact (newest_spec (hr hin)).1
    · rw [newest_append_self]
      exact hg
  have hno : (g.boot a).NotOlder a := mem_drop_newest hmem hfloor
  unfold TwoCopy.recovered at hrec
  refine ⟨by simpa [boot, TwoCopy.recovered, hrec] using hno, fun c hc => ?_, fun h₁ h₂ => ?_, ?_, ?_, ?_⟩
  · have hc' : m = some c := hc
    subst hc'
    rw [Option.getD_some] at hrec
    subst hrec
    exact ⟨hno, by simp [boot, TwoCopy.recovered]⟩
  · cases m with
    | none =>
      rw [Option.getD_none] at hrec
      simpa [boot, hrec] using hno
    | some c =>
      cases b with
      | none => exact absurd rfl h₁
      | some d =>
        have := hsame c d rfl rfl
        subst this
        rw [Option.getD_some] at hrec
        subst hrec
        exact hno
  · cases m <;> cases b <;> simp [boot]
  · cases m <;> cases b <;> simp [boot]
  · intro _
    cases m with
    | none => exact .inl rfl
    | some c =>
      cases b with
      | none => simp_all [boot]
      | some d => exact .inr (congrArg some (hsame c d rfl rfl))

end Monotone

/-! ## A store at rest holds the record -/

/-- When no save is asked for or to be asked for, the copies are the record. -/
structure Saved (s : Store α) : Prop where
  main : s.update = false → s.awaiting = false → s.main = some s.ram
  bak : s.phase = .idle → s.update = false → s.awaiting = false → s.bak = some s.ram
  erased : s.phase = .mainErased → s.update = true

theorem Step.saved {s s' : Store α} (h : Step s s') (hs : Saved s) : Saved s' := by
  cases h with
  | eraseMain hp hu => exact ⟨by simp [hu], by simp, fun _ => hu⟩
  | writeMain u hp hu => exact ⟨fun _ _ => rfl, by simp, by simp⟩
  | mainDone hp => exact ⟨hs.main, by simp, by simp⟩
  | eraseBak hp => exact ⟨hs.main, by simp, by simp⟩
  | copyBak b hp => exact ⟨hs.main, by simp [hp], by simp [hp]⟩
  | finish hp hb => exact ⟨hs.main, fun _ hu ha => hb.trans (hs.main hu ha), by simp⟩

theorem Saved.mutate {s : Store α} (h : Saved s) (r : α) : Saved (s.mutate r) :=
  ⟨by simp [Store.mutate], by simp [Store.mutate], h.erased⟩

theorem saved_request {s : Store α} : Saved s.request :=
  ⟨by simp [Store.request], by simp [Store.request], by simp [Store.request]⟩

/-- The request may be taken back if RAM is still as it was written, or if a
save is still to be asked for. -/
theorem saved_clear {s : Store α} (hp : s.phase = .mainWritten ∨ s.phase = .mainDone)
    (hc : s.awaiting = false → s.main = some s.ram) : Saved s.clear := by
  refine ⟨fun _ ha => hc ha, fun hi => ?_, fun he => ?_⟩
  · rcases hp with hp | hp <;> simp [Store.clear, hp] at hi
  · rcases hp with hp | hp <;> simp [Store.clear, hp] at he

theorem saved_boot {dflt : α} {m b : Option α} (h : ∀ a c, m = some a → b = some c → a = c) : Saved (boot dflt m b) := by
  cases m with
  | none => exact ⟨by simp [boot], by simp [boot], by simp [boot]⟩
  | some a =>
    cases b with
    | none => exact ⟨by simp [boot], by simp [boot], by simp [boot]⟩
    | some c =>
      have := h a c rfl rfl
      subst this
      exact ⟨by simp [boot, recovered], by simp [boot, recovered], by simp [boot]⟩

end TwoCopy
