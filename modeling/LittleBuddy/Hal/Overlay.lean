import Mathlib.Logic.Function.Basic
import Mathlib.Tactic.Common
import LittleBuddy.Lib.Runs
/-!
# Overlays

`platform/hal/hal_overlay.c`: the overlays share a region of memory, and two
variables say what is in it, `segment_state` with a mark for each segment and
`cur_overlay_id`. A failed `ASSERT` is a missing result.
-/
open Runs

namespace Hal.Overlay

/-! ## The code -/

/-- The ids below `HAL_OVERLAY_ID_QTY`. -/
abbrev Id := Fin 8

/-- `cur_overlay_id`: one of the overlays, `HAL_OVERLAY_ID_QTY` or `HAL_OVERLAY_ID_IN_CFG`. -/
inductive Current where
  | id (id : Id)
  | qty
  | inCfg
  deriving DecidableEq

/-- `HAL_OVERLAY_RET_T`. -/
inductive Ret where
  | ok
  | inCfg
  | inUse
  deriving DecidableEq

/-- The words between `text_load_start` and `text_load_stop`, and those of the data. -/
structure Images where
  text : Id → List UInt32
  data : Id → List UInt32

/-- The two variables, and the words from `__overlay_text_start__` and `__overlay_data_start__` on. -/
structure State where
  segment_state : Id → Bool
  cur_overlay_id : Current
  text : Nat → UInt32
  data : Nat → UInt32

/-- The state at power-on. -/
def start (text data : Nat → UInt32) : State := ⟨fun _ => false, .qty, text, data⟩

/-- `CHECK_OVERLAY_ID`. -/
def checkOverlayId (id : Int) : Option Id :=
  if h : id < 0 ∨ 8 ≤ id then none else some ⟨id.toNat, by omega⟩

/-- A loop that copies the words of an overlay. -/
def copyLoop (dst : Nat) : List UInt32 → (Nat → UInt32) → Nat → UInt32
  | [], mem => mem
  | word :: words, mem => copyLoop (dst + 1) words (Function.update mem dst word)

/-- `hal_overlay_acquire`, behind its check. -/
def acquireId (id : Id) (s : State) : State := { s with segment_state := Function.update s.segment_state id true }

/-- `hal_overlay_release`, behind its check. -/
def releaseId (id : Id) (s : State) : State := { s with segment_state := Function.update s.segment_state id false }

/-- `hal_overlay_acquire`. -/
def halOverlayAcquire (id : Int) (s : State) : Option State := (checkOverlayId id).map fun id => acquireId id s

/-- `hal_overlay_is_used`. -/
def halOverlayIsUsed (s : State) : Bool := (List.finRange 8).any s.segment_state

/-- `hal_overlay_load`. -/
def halOverlayLoad (images : Images) (id : Int) (s : State) : Option (Ret × State) :=
  (checkOverlayId id).bind fun id =>
    if halOverlayIsUsed s then none
    else
      match s.cur_overlay_id with
      | .qty =>
        let s := acquireId id { s with cur_overlay_id := .inCfg }
        let s := { s with text := copyLoop 0 (images.text id) s.text }
        let s := { s with data := copyLoop 0 (images.data id) s.data }
        some (.ok, { s with cur_overlay_id := .id id, segment_state := Function.update s.segment_state id true })
      | .inCfg => some (.inCfg, s)
      | .id _ => some (.inUse, s)

/-- `hal_overlay_unload`. -/
def halOverlayUnload (id : Int) (s : State) : Option (Ret × State) :=
  (checkOverlayId id).map fun id =>
    if s.cur_overlay_id = .id id then (.ok, releaseId id { s with cur_overlay_id := .qty })
    else if s.cur_overlay_id = .inCfg then (.inCfg, releaseId id s)
    else (.inUse, releaseId id s)

/-- A call. -/
inductive Call where
  | acquire (id : Int)
  | load (id : Int)
  | unload (id : Int)
  deriving DecidableEq

def step (images : Images) : Call → State → Option State
  | .acquire id, s => halOverlayAcquire id s
  | .load id, s => (halOverlayLoad images id s).map Prod.snd
  | .unload id, s => (halOverlayUnload id s).map Prod.snd

/-! ## What the two variables say -/

/-- The segment has been acquired, and not unloaded since. -/
def AcquiredSince (id : Id) (calls : List Call) : Prop :=
  ∃ before after, calls = before ++ .acquire (id : Nat) :: after ∧ .unload (id : Nat) ∉ after

/-- No other overlay has been loaded since this one. -/
def LoadedLast (id : Id) (calls : List Call) : Prop :=
  ∃ before after, calls = before ++ .load (id : Nat) :: after ∧ ∀ other, .load other ∉ after

/-- The words are in memory from the start of the region on. -/
def InPlace (words : List UInt32) (mem : Nat → UInt32) : Prop := ∀ i word, words[i]? = some word → mem i = word

/-- The current overlay is the one that was loaded last, with its words in place and its segment marked; a
marked segment has the current overlay, or it was acquired. -/
structure Agrees (images : Images) (s : State) (calls : List Call) : Prop where
  settled : s.cur_overlay_id ≠ .inCfg
  marked : ∀ id, s.cur_overlay_id = .id id → s.segment_state id = true
  loaded : ∀ id, s.cur_overlay_id = .id id → LoadedLast id calls
  text : ∀ id, s.cur_overlay_id = .id id → InPlace (images.text id) s.text
  data : ∀ id, s.cur_overlay_id = .id id → InPlace (images.data id) s.data
  used : ∀ id, s.segment_state id = true → s.cur_overlay_id = .id id ∨ AcquiredSince id calls

section Steps

variable {images : Images} {s s' : State} {calls : List Call} {id : Id} {call : Call}

theorem checkOverlayId_eq_some {n : Int} : checkOverlayId n = some id ↔ n = (id : Nat) := by
  rw [checkOverlayId]
  constructor
  · intro h
    split at h
    · cases h
    · obtain rfl := Option.some_inj.mp h
      simp only
      omega
  · rintro rfl
    have := id.isLt
    rw [dif_neg (by omega)]
    exact congrArg some (Fin.ext (Int.toNat_natCast _))

theorem copyLoop_before (words : List UInt32) {dst i : Nat} (mem : Nat → UInt32) (h : i < dst) :
    copyLoop dst words mem i = mem i := by
  induction words generalizing dst mem with
  | nil => rfl
  | cons word words ih =>
    rw [copyLoop, ih _ (Nat.lt_succ_of_lt h)]
    exact Function.update_of_ne (Nat.ne_of_lt h) _ _

theorem copyLoop_get (words : List UInt32) (dst : Nat) (mem : Nat → UInt32) {i : Nat} {word : UInt32}
    (h : words[i]? = some word) : copyLoop dst words mem (dst + i) = word := by
  induction words generalizing dst mem i with
  | nil => cases h
  | cons first words ih =>
    cases i with
    | zero =>
      rw [Nat.add_zero, copyLoop, copyLoop_before words _ (Nat.lt_add_one dst), Function.update_self]
      exact Option.some_inj.mp h
    | succ i =>
      rw [copyLoop, show dst + (i + 1) = dst + 1 + i by omega]
      exact ih _ _ h

theorem inPlace_copyLoop (words : List UInt32) (mem : Nat → UInt32) : InPlace words (copyLoop 0 words mem) := by
  intro i word h
  rw [← Nat.zero_add i]
  exact copyLoop_get words 0 mem h

theorem not_used_iff : halOverlayIsUsed s = false ↔ ∀ id, s.segment_state id = false := by
  rw [halOverlayIsUsed, List.any_eq_false]
  exact ⟨fun h id => Bool.eq_false_iff.mpr (h id (List.mem_finRange id)), fun h id _ => Bool.eq_false_iff.mp (h id)⟩

theorem AcquiredSince.snoc (h : AcquiredSince id calls) (hcall : call ≠ .unload (id : Nat)) :
    AcquiredSince id (calls ++ [call]) := by
  obtain ⟨before, after, rfl, hafter⟩ := h
  refine ⟨before, after ++ [call], by rw [List.append_assoc, List.cons_append], ?_⟩
  rw [List.mem_append, List.mem_singleton, not_or]
  exact ⟨hafter, hcall.symm⟩

theorem AcquiredSince.now (id : Id) (calls : List Call) : AcquiredSince id (calls ++ [.acquire (id : Nat)]) :=
  ⟨calls, [], rfl, List.not_mem_nil⟩

theorem LoadedLast.snoc (h : LoadedLast id calls) (hcall : ∀ other, call ≠ .load other) : LoadedLast id (calls ++ [call]) := by
  obtain ⟨before, after, rfl, hafter⟩ := h
  refine ⟨before, after ++ [call], by rw [List.append_assoc, List.cons_append], fun other => ?_⟩
  rw [List.mem_append, List.mem_singleton, not_or]
  exact ⟨hafter other, (hcall other).symm⟩

/-- What a load leaves. -/
def loadedId (images : Images) (id : Id) (s : State) : State where
  segment_state := Function.update s.segment_state id true
  cur_overlay_id := .id id
  text := copyLoop 0 (images.text id) s.text
  data := copyLoop 0 (images.data id) s.data

@[simp] theorem acquireId_state (id other : Id) (s : State) :
    (acquireId id s).segment_state other = if other = id then true else s.segment_state other :=
  Function.update_apply ..

@[simp] theorem releaseId_state (id other : Id) (s : State) :
    (releaseId id s).segment_state other = if other = id then false else s.segment_state other :=
  Function.update_apply ..

@[simp] theorem loadedId_state (images : Images) (id other : Id) (s : State) :
    (loadedId images id s).segment_state other = if other = id then true else s.segment_state other :=
  Function.update_apply ..

/-- What a call does. -/
inductive Effect (images : Images) (s : State) : Call → State → Prop where
  | acquire (id : Id) : Effect images s (.acquire (id : Nat)) (acquireId id s)
  | load (id : Id) : (∀ other, s.segment_state other = false) → s.cur_overlay_id = .qty →
      Effect images s (.load (id : Nat)) (loadedId images id s)
  | refused (id : Int) : (∀ other, s.segment_state other = false) → s.cur_overlay_id ≠ .qty → Effect images s (.load id) s
  | unload (id : Id) : s.cur_overlay_id = .id id →
      Effect images s (.unload (id : Nat)) (releaseId id { s with cur_overlay_id := .qty })
  | unloadOther (id : Id) : s.cur_overlay_id ≠ .id id → Effect images s (.unload (id : Nat)) (releaseId id s)

theorem step_effect (h : step images call s = some s') : Effect images s call s' := by
  cases call with
  | acquire n =>
    obtain ⟨id, hid, rfl⟩ := Option.map_eq_some_iff.mp h
    obtain rfl := checkOverlayId_eq_some.mp hid
    exact .acquire id
  | load n =>
    obtain ⟨_, hcall, rfl⟩ := Option.map_eq_some_iff.mp h
    obtain ⟨id, hid, hload⟩ := Option.bind_eq_some_iff.mp hcall
    obtain rfl := checkOverlayId_eq_some.mp hid
    split at hload
    · cases hload
    · rename_i hunused
      have hfree := not_used_iff.mp (Bool.eq_false_iff.mpr hunused)
      split at hload
      · rename_i hcur
        obtain rfl := Option.some_inj.mp hload
        simp only [acquireId, Function.update_idem]
        exact .load id hfree hcur
      · rename_i hcur
        obtain rfl := Option.some_inj.mp hload
        exact .refused _ hfree (by rw [hcur]; exact Current.noConfusion)
      · rename_i hcur
        obtain rfl := Option.some_inj.mp hload
        exact .refused _ hfree (by rw [hcur]; exact Current.noConfusion)
  | unload n =>
    obtain ⟨_, hunload, rfl⟩ := Option.map_eq_some_iff.mp h
    obtain ⟨id, hid, rfl⟩ := Option.map_eq_some_iff.mp hunload
    obtain rfl := checkOverlayId_eq_some.mp hid
    split
    · exact .unload id ‹_›
    · split
      · exact .unloadOther id ‹_›
      · exact .unloadOther id ‹_›

theorem Agrees.start (images : Images) (text data : Nat → UInt32) : Agrees images (start text data) [] where
  settled := Current.noConfusion
  marked _ h := Current.noConfusion h
  loaded _ h := Current.noConfusion h
  text _ h := Current.noConfusion h
  data _ h := Current.noConfusion h
  used _ h := Bool.noConfusion h

/-- A segment is marked, by an acquisition. -/
theorem Agrees.acquire (h : Agrees images s calls) (id : Id) : Agrees images (acquireId id s) (calls ++ [.acquire (id : Nat)]) where
  settled := h.settled
  marked other hcur := by
    rw [acquireId_state, h.marked other hcur, ite_self]
  loaded other hcur := (h.loaded other hcur).snoc fun _ => Call.noConfusion
  text := h.text
  data := h.data
  used other hmark := by
    rw [acquireId_state] at hmark
    split at hmark
    · rename_i heq
      exact .inr (heq ▸ AcquiredSince.now other calls)
    · exact (h.used other hmark).imp_right fun hacquired => hacquired.snoc Call.noConfusion

theorem Agrees.load (calls : List Call) (id : Id) (hfree : ∀ other, s.segment_state other = false) :
    Agrees images (loadedId images id s) (calls ++ [.load (id : Nat)]) where
  settled := Current.noConfusion
  marked other hcur := by
    obtain rfl := Current.id.inj hcur
    exact Function.update_self ..
  loaded other hcur := by
    obtain rfl := Current.id.inj hcur
    exact ⟨calls, [], rfl, fun _ => List.not_mem_nil⟩
  text other hcur := by
    obtain rfl := Current.id.inj hcur
    exact inPlace_copyLoop _ _
  data other hcur := by
    obtain rfl := Current.id.inj hcur
    exact inPlace_copyLoop _ _
  used other hmark := by
    rw [loadedId_state, hfree other] at hmark
    split at hmark
    · rename_i heq
      exact .inl (congrArg Current.id heq.symm)
    · cases hmark

theorem Agrees.unload (h : Agrees images s calls) (id : Id) (hcur : s.cur_overlay_id = .id id) :
    Agrees images (releaseId id { s with cur_overlay_id := .qty }) (calls ++ [.unload (id : Nat)]) where
  settled := Current.noConfusion
  marked _ h := Current.noConfusion h
  loaded _ h := Current.noConfusion h
  text _ h := Current.noConfusion h
  data _ h := Current.noConfusion h
  used other hmark := by
    rw [releaseId_state] at hmark
    split at hmark
    · cases hmark
    · rename_i hother
      rcases h.used other hmark with hnow | hacquired
      · exact absurd (Current.id.inj (hnow.symm.trans hcur)) hother
      · exact .inr (hacquired.snoc fun hcall => hother (Fin.ext (Int.ofNat.inj (Call.unload.inj hcall)).symm))

theorem Agrees.unloadOther (h : Agrees images s calls) (id : Id) (hcur : s.cur_overlay_id ≠ .id id) :
    Agrees images (releaseId id s) (calls ++ [.unload (id : Nat)]) where
  settled := h.settled
  marked other hnow := by
    rw [releaseId_state, if_neg]
    · exact h.marked other hnow
    · rintro rfl
      exact hcur hnow
  loaded other hnow := (h.loaded other hnow).snoc fun _ => Call.noConfusion
  text := h.text
  data := h.data
  used other hmark := by
    rw [releaseId_state] at hmark
    split at hmark
    · cases hmark
    · rename_i hother
      exact (h.used other hmark).imp_right fun hacquired =>
        hacquired.snoc fun hcall => hother (Fin.ext (Int.ofNat.inj (Call.unload.inj hcall)).symm)

/-- With no segment in use there is no current overlay, so that a load is never refused. -/
theorem Agrees.not_refused (h : Agrees images s calls) (hfree : ∀ other, s.segment_state other = false) :
    s.cur_overlay_id = .qty := by
  cases hcur : s.cur_overlay_id with
  | id id => exact Bool.noConfusion ((h.marked id hcur).symm.trans (hfree id))
  | qty => rfl
  | inCfg => exact absurd hcur h.settled

theorem Agrees.step (h : Agrees images s calls) (hstep : step images call s = some s') :
    Agrees images s' (calls ++ [call]) := by
  cases step_effect hstep with
  | acquire id => exact h.acquire id
  | load id hfree hcur => exact .load calls id hfree
  | refused n hfree hcur => exact absurd (h.not_refused hfree) hcur
  | unload id hcur => exact h.unload id hcur
  | unloadOther id hcur => exact h.unloadOther id hcur

theorem run_agrees (text data : Nat → UInt32) (h : Run (Overlay.step images) (fun _ _ => True) (· = start text data) s calls) :
    Agrees images s calls := by
  induction h with
  | nil hinit =>
    rw [hinit]
    exact Agrees.start images text data
  | snoc _ _ hstep ih => exact ih.step hstep

/-- The two variables agree after every sequence of calls, except for the segments that were acquired, and
what is not the current overlay can be unloaded without harm. -/
theorem overlay_bookkeeping (images : Images) (text data : Nat → UInt32) {s : State} {calls : List Call}
    (h : Run (Overlay.step images) (fun _ _ => True) (· = start text data) s calls) :
    Agrees images s calls ∧ ∀ (id : Id) s', s.cur_overlay_id ≠ .id id → Overlay.step images (.unload (id : Nat)) s = some s' →
      s'.cur_overlay_id = s.cur_overlay_id ∧ s'.text = s.text ∧ s'.data = s.data ∧
        (∀ other, other ≠ id → s'.segment_state other = s.segment_state other) ∧
        (¬AcquiredSince id calls → s'.segment_state = s.segment_state) := by
  have hagrees := run_agrees text data h
  refine ⟨hagrees, fun id s' hcur hstep => ?_⟩
  have heffect := step_effect hstep
  generalize hcall : Call.unload ((id : Nat) : Int) = call at heffect
  cases heffect with
  | acquire => cases hcall
  | load => cases hcall
  | refused => cases hcall
  | unload id' hnow =>
    obtain rfl : id = id' := Fin.ext (Int.ofNat.inj (Call.unload.inj hcall))
    exact absurd hnow hcur
  | unloadOther id' =>
    obtain rfl : id = id' := Fin.ext (Int.ofNat.inj (Call.unload.inj hcall))
    refine ⟨rfl, rfl, rfl, fun other hother => Function.update_of_ne hother _ _, fun hnot => ?_⟩
    -- a segment that is neither current nor acquired is not marked
    have hfree : s.segment_state id = false := by
      refine Bool.eq_false_iff.mpr fun hmark => ?_
      rcases hagrees.used id hmark with hnow | hacquired
      · exact hcur hnow
      · exact hnot hacquired
    exact Function.update_eq_self_iff.mpr hfree.symm

end Steps

/-- Overlays of a word of text and a word of data. -/
def wordImages : Images := ⟨fun id => [UInt32.ofNat id], fun id => [UInt32.ofNat (id + 8)]⟩

theorem overlay_bookkeeping_acquired : ∃ s,
    Run (step wordImages) (fun _ _ => True) (· = start (fun _ => 0) fun _ => 0) s [.load 2, .acquire 5] ∧
      s.cur_overlay_id = .id 2 ∧ Agrees wordImages s [.load 2, .acquire 5] := by
  obtain ⟨s, hrun, hcur⟩ := exists_run_of_check (step wordImages) (fun _ _ => True) (· = start (fun _ => 0) fun _ => 0)
    (some (start (fun _ => 0) fun _ => 0)) [.load 2, .acquire 5] (fun s => decide (s.cur_overlay_id = .id 2))
    (fun _ h => (Option.some_inj.mp h).symm) (by decide)
  exact ⟨s, hrun, of_decide_eq_true hcur, (overlay_bookkeeping wordImages _ _ hrun).1⟩

/-- An acquisition marks a segment that no overlay is loaded into. -/
theorem acquired_without_overlay : ∃ s,
    Run (step wordImages) (fun _ _ => True) (· = start (fun _ => 0) fun _ => 0) s [.acquire 0] ∧
      s.segment_state 0 = true ∧ s.cur_overlay_id = .qty := by
  obtain ⟨s, hrun, hend⟩ := exists_run_of_check (step wordImages) (fun _ _ => True) (· = start (fun _ => 0) fun _ => 0)
    (some (start (fun _ => 0) fun _ => 0)) [.acquire 0] (fun s => s.segment_state 0 && decide (s.cur_overlay_id = .qty))
    (fun _ h => (Option.some_inj.mp h).symm) (by decide)
  rw [Bool.and_eq_true, decide_eq_true_iff] at hend
  exact ⟨s, hrun, hend⟩

end Hal.Overlay
