import LittleBuddy.Lib.Runs
import Mathlib.Data.Fintype.Basic
import Mathlib.Logic.Function.Basic
/-!
# The environment record

`services/nv_section/userdata_section/nvrecord_env.c` hands every client a
pointer to the same static copy of the environment, `localSystemInfo`.
`nv_record_env_get` fills the copy from the record and `nv_record_env_set`
copies all of it back; `nv_record_update_ibrt_info` writes to the record itself.
-/
open Runs

namespace NvRecord.EnvRecord

/-! ## The code -/

/-- The fields of `struct nvrecord_env_t`: the two that
`nv_record_update_ibrt_info` writes, and the others. -/
inductive Field (Other : Type) where
  | mode
  | bdAddr
  | other (f : Other)
  deriving DecidableEq

abbrev Env (Other Val : Type) := Field Other → Val

/-- `nvrecord_extension_p->system_info`, `none` before the section is open, and
`localSystemInfo`. -/
structure Nv (Other Val : Type) where
  system_info : Option (Env Other Val)
  localSystemInfo : Env Other Val

variable {Other Val : Type} [DecidableEq Other]

/-- `nv_record_env_get`; whether it returns 0. The pointer is always that of `localSystemInfo`. -/
def nvRecordEnvGet (s : Nv Other Val) : Bool × Nv Other Val :=
  match s.system_info with
  | none => (false, s)
  | some info => (true, { s with localSystemInfo := info })

/-- `nv_record_env_set` of `localSystemInfo`. -/
def nvRecordEnvSet (s : Nv Other Val) : Bool × Nv Other Val :=
  match s.system_info with
  | none => (false, s)
  | some _ => (true, { s with system_info := some s.localSystemInfo })

/-- `nv_record_update_ibrt_info`. -/
def nvRecordUpdateIbrtInfo (newMode ibrtPeerAddr : Val) (s : Nv Other Val) : Nv Other Val :=
  match s.system_info with
  | none => s
  | some info =>
    { s with system_info := some (Function.update (Function.update info .mode newMode) .bdAddr ibrtPeerAddr) }

/-- What a client does to its field between get and set. -/
def writeField (f : Other) (v : Val) (s : Nv Other Val) : Nv Other Val :=
  { s with localSystemInfo := Function.update s.localSystemInfo (.other f) v }

/-! ## Runs -/

/-- How far the client of a field is. -/
inductive Pc (Val : Type) where
  | idle
  | got
  | changed (v : Val)
  deriving DecidableEq

/-- Each client is named by its field. -/
inductive Event (Other Val : Type) where
  | get (f : Other)
  | change (f : Other) (v : Val)
  | set (f : Other)
  | ibrt (newMode ibrtPeerAddr : Val)

/-- The record with its copy, the clients, and the value last set for each field. -/
structure Sys (Other Val : Type) where
  nv : Nv Other Val
  pc : Other → Pc Val
  last : Env Other Val

/-- A client whose get fails goes no further. -/
def step : Event Other Val → Sys Other Val → Option (Sys Other Val)
  | .get f, s =>
    match s.pc f with
    | .idle =>
      match nvRecordEnvGet s.nv with
      | (false, _) => some s
      | (true, nv) => some { s with nv, pc := Function.update s.pc f .got }
    | _ => none
  | .change f v, s =>
    match s.pc f with
    | .idle => none
    | _ => some { s with nv := writeField f v s.nv, pc := Function.update s.pc f (.changed v) }
  | .set f, s =>
    match s.pc f with
    | .idle => none
    | .got => some { s with nv := (nvRecordEnvSet s.nv).2, pc := Function.update s.pc f .idle }
    | .changed v => some { nv := (nvRecordEnvSet s.nv).2, pc := Function.update s.pc f .idle,
                           last := Function.update s.last (.other f) v }
  | .ibrt newMode ibrtPeerAddr, s =>
    some { s with nv := nvRecordUpdateIbrtInfo newMode ibrtPeerAddr s.nv,
                  last := Function.update (Function.update s.last .mode newMode) .bdAddr ibrtPeerAddr }

/-- The section is open, and no client is under way. -/
def init (s : Sys Other Val) : Prop := s.nv.system_info = some s.last ∧ ∀ f, s.pc f = .idle

/-- The client of a field has changed it and not set it yet. -/
def Pc.pending : Pc Val → Bool
  | .changed _ => true
  | _ => false

/-- A client gets the copy only while no client has a change in it, and sets it
only while the record has the ibrt fields of the copy. -/
def Undisturbed (e : Event Other Val) (s : Sys Other Val) : Prop :=
  match e with
  | .get _ => ∀ g, (s.pc g).pending = false
  | .set _ => ∀ info, s.nv.system_info = some info →
      s.nv.localSystemInfo .mode = info .mode ∧ s.nv.localSystemInfo .bdAddr = info .bdAddr
  | _ => True

instance [Fintype Other] [DecidableEq Val] (e : Event Other Val) (s : Sys Other Val) : Decidable (Undisturbed e s) :=
  match e with
  | .get _ => inferInstanceAs (Decidable (∀ g, (s.pc g).pending = false))
  | .set _ =>
    match h : s.nv.system_info with
    | none => isTrue fun info hinfo => by simp [h] at hinfo
    | some info =>
      decidable_of_iff (s.nv.localSystemInfo .mode = info .mode ∧ s.nv.localSystemInfo .bdAddr = info .bdAddr)
        ⟨fun hc _ hinfo => Option.some.inj (h.symm.trans hinfo) ▸ hc, fun hc => hc info h⟩
  | .change _ _ | .ibrt _ _ => inferInstanceAs (Decidable True)

/-- The record has the value last set for each field, but for the fields of
clients that have changed the copy and not set it yet. -/
def NotLost (s : Sys Other Val) : Prop :=
  ∃ info, s.nv.system_info = some info ∧ info .mode = s.last .mode ∧ info .bdAddr = s.last .bdAddr ∧
    ∀ f, (s.pc f).pending = false → info (.other f) = s.last (.other f)

/-! ## The invariant -/

/-- Once a client has the copy, the copy has the changes, and agrees with the
record in every field that no client is about to set. -/
structure Inv (s : Sys Other Val) : Prop where
  notLost : NotLost s
  changes : ∀ f v, s.pc f = .changed v → s.nv.localSystemInfo (.other f) = v
  copy : (∃ f, s.pc f ≠ .idle) → ∀ info, s.nv.system_info = some info →
    ∀ f, (s.pc f).pending = false → s.nv.localSystemInfo (.other f) = info (.other f)

variable {s s' : Sys Other Val}

omit [DecidableEq Other] in
theorem init_inv (h : init s) : Inv s := by
  obtain ⟨hinfo, hidle⟩ := h
  refine ⟨⟨s.last, hinfo, rfl, rfl, fun _ _ => rfl⟩, ?_, ?_⟩
  · intro f v hv
    simp [hidle] at hv
  · rintro ⟨f, hf⟩
    exact absurd (hidle f) hf

theorem Inv.get {f : Other} (h : Inv s) (hc : Undisturbed (.get f) s) (hs : step (.get f) s = some s') : Inv s' := by
  obtain ⟨info, hinfo, hmode, haddr, hfields⟩ := h.notLost
  cases hpc : s.pc f with
  | got | changed _ => simp [step, hpc] at hs
  | idle =>
    obtain rfl : { s with nv := ⟨some info, info⟩, pc := Function.update s.pc f .got } = s' := by
      simpa [step, hpc, nvRecordEnvGet, hinfo] using hs
    have hnone : ∀ g, (Function.update s.pc f .got g).pending = false := by
      intro g
      by_cases hg : g = f
      · subst hg; simp [Pc.pending]
      · simpa [Function.update_of_ne hg] using hc g
    refine ⟨⟨info, rfl, hmode, haddr, fun g _ => hfields g (hc g)⟩, ?_, ?_⟩
    · intro g v (hv : Function.update s.pc f .got g = .changed v)
      have hpending := hnone g
      rw [hv] at hpending
      cases hpending
    · rintro _ _ ⟨⟩ g _
      rfl

theorem Inv.change {f : Other} {v : Val} (h : Inv s) (hs : step (.change f v) s = some s') : Inv s' := by
  obtain ⟨hpc, rfl⟩ : s.pc f ≠ .idle ∧
      { s with nv := writeField f v s.nv, pc := Function.update s.pc f (.changed v) } = s' := by
    cases hpc : s.pc f <;> simp [step, hpc] at hs
    · exact ⟨by simp, hs⟩
    · exact ⟨by simp, hs⟩
  -- only the client's own field of the copy changes, and it is pending now
  have hother : ∀ g, (Function.update s.pc f (.changed v) g).pending = false → g ≠ f ∧ (s.pc g).pending = false := by
    intro g hg
    by_cases hgf : g = f
    · subst hgf
      simp [Pc.pending] at hg
    · exact ⟨hgf, by simpa [Function.update_of_ne hgf] using hg⟩
  obtain ⟨info, hinfo, hmode, haddr, hfields⟩ := h.notLost
  refine ⟨⟨info, hinfo, hmode, haddr, fun g hg => hfields g (hother g hg).2⟩, ?_, ?_⟩
  · intro g w hw
    by_cases hgf : g = f
    · subst hgf
      simpa [writeField] using hw
    · simp only [Function.update_of_ne hgf] at hw
      simpa [writeField, hgf] using h.changes g w hw
  · intro _ info' hinfo' g hg
    obtain ⟨hgf, hg⟩ := hother g hg
    simpa [writeField, hgf] using h.copy ⟨f, hpc⟩ info' hinfo' g hg

/-- After a set the record is the copy. -/
theorem Inv.set {f : Other} (h : Inv s) (hc : Undisturbed (.set f) s) (hs : step (.set f) s = some s') : Inv s' := by
  obtain ⟨info, hinfo, hmode, haddr, hfields⟩ := h.notLost
  obtain ⟨hcmode, hcaddr⟩ := hc info hinfo
  have hidle : ∀ g, g ≠ f → Function.update s.pc f .idle g = s.pc g := fun g hg => Function.update_of_ne hg ..
  have hchanges : ∀ g v, Function.update s.pc f .idle g = .changed v → s.nv.localSystemInfo (.other g) = v := by
    intro g v hv
    by_cases hg : g = f
    · subst hg
      simp at hv
    · exact h.changes g v (by rwa [← hidle g hg])
  -- the fields of the other clients are in the copy as they are in the record
  have hcopy : s.pc f ≠ .idle → ∀ g, g ≠ f → (Function.update s.pc f .idle g).pending = false →
      s.nv.localSystemInfo (.other g) = s.last (.other g) := by
    intro hf g hg hpending
    rw [hidle g hg] at hpending
    rw [h.copy ⟨f, hf⟩ info hinfo g hpending, hfields g hpending]
  cases hpc : s.pc f with
  | idle => simp [step, hpc] at hs
  | got =>
    obtain rfl : { s with nv := ⟨some s.nv.localSystemInfo, s.nv.localSystemInfo⟩,
                          pc := Function.update s.pc f .idle } = s' := by
      simpa [step, hpc, nvRecordEnvSet, hinfo] using hs
    refine ⟨⟨s.nv.localSystemInfo, rfl, by rw [hcmode, hmode], by rw [hcaddr, haddr], ?_⟩, hchanges, ?_⟩
    · intro g hg
      by_cases hgf : g = f
      · subst hgf
        rw [h.copy ⟨g, by simp [hpc]⟩ info hinfo g (by simp [hpc, Pc.pending]), hfields g (by simp [hpc, Pc.pending])]
      · exact hcopy (by simp [hpc]) g hgf hg
    · rintro _ _ ⟨⟩ g _
      rfl
  | changed v =>
    obtain rfl : (⟨⟨some s.nv.localSystemInfo, s.nv.localSystemInfo⟩, Function.update s.pc f .idle,
        Function.update s.last (.other f) v⟩ : Sys Other Val) = s' := by
      simpa [step, hpc, nvRecordEnvSet, hinfo] using hs
    refine ⟨⟨s.nv.localSystemInfo, rfl, by simp [hcmode, hmode], by simp [hcaddr, haddr], ?_⟩, hchanges, ?_⟩
    · intro g hg
      by_cases hgf : g = f
      · subst hgf
        simpa using h.changes g v hpc
      · simpa [hgf] using hcopy (by simp [hpc]) g hgf hg
    · rintro _ _ ⟨⟩ g _
      rfl

theorem Inv.ibrt {newMode ibrtPeerAddr : Val} (h : Inv s) (hs : step (.ibrt newMode ibrtPeerAddr) s = some s') :
    Inv s' := by
  obtain ⟨info, hinfo, -, -, hfields⟩ := h.notLost
  obtain rfl := Option.some.inj hs
  refine ⟨⟨_, by simp only [nvRecordUpdateIbrtInfo, hinfo]; rfl, by simp, by simp, ?_⟩, ?_, ?_⟩
  · intro f hf
    simpa using hfields f hf
  · intro f v hv
    simpa [nvRecordUpdateIbrtInfo, hinfo] using h.changes f v hv
  · intro hsome info' hinfo' f hf
    simp only [nvRecordUpdateIbrtInfo, hinfo, Option.some.injEq] at hinfo'
    subst hinfo'
    simpa [nvRecordUpdateIbrtInfo, hinfo] using h.copy hsome info hinfo f hf

theorem step_inv (e : Event Other Val) (s s' : Sys Other Val) (h : Inv s) (hc : Undisturbed e s)
    (hs : step e s = some s') : Inv s' := by
  cases e with
  | get f => exact h.get hc hs
  | change f v => exact h.change hs
  | set f => exact h.set hc hs
  | ibrt newMode ibrtPeerAddr => exact h.ibrt hs

/-- No update is lost as long as the clients do not disturb one another. -/
theorem updates_kept {evs : List (Event Other Val)} (h : Run step Undisturbed init s evs) : NotLost s :=
  (h.inv Inv (fun _ => init_inv) step_inv).notLost

/-! ## Clients that disturb one another -/

/-- An open section with two clients and an environment of zeros. -/
def opened : Sys Bool Nat := ⟨⟨some fun _ => 0, fun _ => 0⟩, fun _ => .idle, fun _ => 0⟩

theorem updates_kept_example : ∃ s, Run step Undisturbed init s
    [.get true, .get false, .change true 1, .change false 2, .set true, .set false, .ibrt 3 4] ∧ NotLost s := by
  obtain ⟨s, hrun, -⟩ := exists_run_of_check step Undisturbed init (some opened)
    [.get true, .get false, .change true 1, .change false 2, .set true, .set false, .ibrt 3 4]
    (fun _ => true) (by rintro _ ⟨⟩; exact ⟨rfl, fun _ => rfl⟩) (by decide +kernel)
  exact ⟨s, hrun, updates_kept hrun⟩

/-- The get of a second client drops the change of the first, which then sets
the old value; and a set brings back the mode from before an ibrt update. -/
theorem change_overwritten :
    (∃ s, Run step (fun _ _ => True) init s [.get true, .change true 1, .get false, .set true, .set false] ∧
      ¬ NotLost s) ∧
    (∃ s, Run step (fun _ _ => True) init s [.get true, .ibrt 3 4, .change true 1, .set true] ∧ ¬ NotLost s) := by
  constructor
  · obtain ⟨s, hrun, hs⟩ := exists_run_of_check step (fun _ _ => True) init (some opened)
      [.get true, .change true 1, .get false, .set true, .set false]
      (fun s => decide (s.nv.system_info.map (· (.other true)) = some 0 ∧ s.last (.other true) = 1 ∧
        (s.pc true).pending = false))
      (by rintro _ ⟨⟩; exact ⟨rfl, fun _ => rfl⟩) (by decide +kernel)
    refine ⟨s, hrun, ?_⟩
    rintro ⟨info, hinfo, -, -, hfields⟩
    obtain ⟨hzero, hone, hpending⟩ := of_decide_eq_true hs
    have := hfields true hpending
    simp [hinfo] at hzero
    omega
  · obtain ⟨s, hrun, hs⟩ := exists_run_of_check step (fun _ _ => True) init (some opened)
      [.get true, .ibrt 3 4, .change true 1, .set true]
      (fun s => decide (s.nv.system_info.map (· .mode) = some 0 ∧ s.last .mode = 3))
      (by rintro _ ⟨⟩; exact ⟨rfl, fun _ => rfl⟩) (by decide +kernel)
    refine ⟨s, hrun, ?_⟩
    rintro ⟨info, hinfo, hmode, -, -⟩
    obtain ⟨hzero, hthree⟩ := of_decide_eq_true hs
    simp [hinfo] at hzero
    omega

end NvRecord.EnvRecord
