import LittleBuddy.BtApp.MediaManager
/-!
# Runs of the audio manager

The current stream is the active one of the highest priority, and it is the one
that is open (`Inv`). Each start and each stop keeps this, under the condition
`Sound`. Without the condition it breaks at once.
-/
open Runs OpenClose

namespace BtApp.MediaManager

/-! ## The invariant -/

/-- The stream of the highest priority. -/
def top (active : Stream → Bool) : Option Stream :=
  if active .media then some .media else if active .voice then some .voice else if active .sbc then some .sbc else none

structure Inv (s : Sys) : Prop where
  current : s.curr_active_media = top s.media_active
  sbc : s.media_curr_sbc ≠ none ↔ s.media_active .sbc = true
  sco : s.media_active .voice = true → s.media_curr_sco ≠ none
  held : Held s.log s.curr_active_media

theorem Inv.init {s : Sys} (h : Init s) : Inv s := by
  obtain ⟨hact, hsbc, hsco, hcurr, hlog⟩ := h
  refine ⟨?_, ?_, ?_, ?_⟩
  · rw [hcurr, hact]
    rfl
  · simp [hsbc, hact]
  · simp [hact]
  · rw [hcurr, hlog]
    exact Held.nil

theorem Inv.agrees {s : Sys} (hi : Inv s) : Agrees s := ⟨hi.held.exclusive, fun _ => hi.held.latest⟩

/-! ## Steps -/

/- The operations on the state are unfolded where the active streams of a branch are checked. -/
attribute [local simp] top Sys.setMediaType Sys.clearMediaType Sys.setCurrentMedia Sys.sendrequest btMediaGetActiveSbcDevice

theorem Inv.held_at {s : Sys} (hi : Inv s) ⦃c : Option Stream⦄ (h : s.curr_active_media = c) : Held s.log c := h ▸ hi.held

theorem startSbc_inv {s : Sys} (hi : Inv s) : Inv (startSbc (s.setMediaType .sbc)) := by
  have hheld := hi.held_at
  obtain ⟨hcur, hsbc, hsco, -⟩ := hi
  unfold startSbc
  dsimp only
  split_ifs <;> refine ⟨by simp_all, by simp_all, by simp_all, ?_⟩
  any_goals exact hheld rfl
  · -- nothing was active
    have hnone : s.curr_active_media = none := by simp_all
    exact (hheld hnone).keeps.opens .sbc
  · simp_all

/-- What changes nothing of the music and the voice has the invariant with the right current stream. -/
theorem Inv.of_prompt {s s' : Sys} (hi : Inv s) (hsbc : s'.media_curr_sbc = s.media_curr_sbc)
    (hsco : s'.media_curr_sco = s.media_curr_sco) (hact : ∀ t ≠ .media, s'.media_active t = s.media_active t)
    (hcur : s'.curr_active_media = top s'.media_active) (hheld : Held s'.log s'.curr_active_media) : Inv s' where
  current := hcur
  sbc := by
    rw [hsbc, hact .sbc (by decide)]
    exact hi.sbc
  sco := by
    rw [hsco, hact .voice (by decide)]
    exact hi.sco
  held := hheld

theorem startMedia_inv {s s' : Sys} {env : Env} (hi : Inv s) (hc : Sound (.start .media env) s)
    (hs : startMedia env (s.setMediaType .media) = some s') : Inv s' := by
  have hheld := hi.held_at
  have hcur := hi.current
  unfold startMedia at hs
  split_ifs at hs with hplay hmedia hvoice hcv hmerge hcm hcall hb hcs hwarn hcm hcn <;> cases hs <;>
    refine hi.of_prompt rfl rfl (fun t ht => by simp [ht]) (by simp_all) ?_
  · exact hheld rfl
  · exact hheld rfl
  · exact hheld rfl
  · exact (hheld hcv).closes.opens .media
  · exact (hheld hcm).again
  · exact hheld rfl
  · -- in a call the prompt opens over nothing or over a prompt
    by_cases hcm : s.curr_active_media = some .media
    · exact (hheld hcm).again
    · have hcs : s.curr_active_media ≠ some .sbc := fun h => hplay (hc hcall (Bool.eq_false_iff.2 hvoice) h)
      have hnone : s.curr_active_media = none := by simp_all
      exact (hheld hnone).opens .media
  · exact hheld rfl
  · exact (hheld hcs).closes.opens .media
  · have hmedia : s.curr_active_media = some .media := hcm
    show Held (s.log ++ [.opens .media]) s.curr_active_media
    rw [hmedia]
    exact (hheld hmedia).again
  · simp_all
  · by_cases hcm : s.curr_active_media = some .media
    · exact (hheld hcm).again
    · have hnone : s.curr_active_media = none := by simp_all
      exact (hheld hnone).opens .media

theorem startVoice_inv {s : Sys} (hi : Inv s) (env : Env) : Inv (startVoice env (s.setMediaType .voice)) := by
  have hheld := hi.held_at
  obtain ⟨hcur, hsbc, hsco, -⟩ := hi
  unfold startVoice
  dsimp only
  split_ifs with hm hv hcm hin hb hcs hcv <;> refine ⟨by simp_all, by simp_all, by simp_all, ?_⟩
  · exact (hheld hcm).closes.opens .voice
  · exact hheld rfl
  · exact hheld rfl
  · exact hheld rfl
  · exact (hheld hcs).closes.opens .voice
  · -- the voice stream was active before
    have hv : s.curr_active_media = some .voice := by simp_all
    exact (hheld hv).again
  · exact hheld rfl
  · have hnone : s.curr_active_media = none := by simp_all
    exact (hheld hnone).opens .voice

theorem top_eq_sbc {active : Stream → Bool} (h : top active = some .sbc) :
    active .media = false ∧ active .voice = false ∧ active .sbc = true := by
  unfold top at h
  split_ifs at h <;> simp_all

theorem top_eq_voice {active : Stream → Bool} (h : top active = some .voice) : active .media = false ∧ active .voice = true := by
  unfold top at h
  split_ifs at h <;> simp_all

/-- The end of a stream that is not the current one changes nothing. -/
theorem top_clear {active : Stream → Bool} {t : Stream} (h : top active ≠ some t) :
    top (Function.update active t false) = top active := by
  unfold top at h ⊢
  simp only [Function.update_apply]
  generalize active .media = media at *
  generalize active .voice = voice at *
  generalize active .sbc = sbc at *
  revert media voice sbc
  cases t <;> decide

/-- With one phone no music is active after its stop. -/
theorem stopSbc_eq (env : Env) (s : Sys) : stopSbc env s = if env.app_ring_merge_isrun then s else
    let s := s.clearMediaType .sbc
    { (if s.curr_active_media = some .sbc then (s.sendrequest (.closes .sbc)).setCurrentMedia none else s) with media_curr_sbc := none } := by
  have hsbc : ((s.clearMediaType .sbc).media_active .sbc) = false := rfl
  unfold stopSbc
  split_ifs with hring
  · rfl
  · dsimp only
    split_ifs <;> simp_all

theorem stopSbc_inv {s : Sys} (hi : Inv s) (env : Env) : Inv (stopSbc env s) := by
  have hheld := hi.held_at
  rw [stopSbc_eq]
  dsimp only
  split_ifs with hring hcs
  · exact hi
  all_goals obtain ⟨hcur, hsbc, hsco, -⟩ := hi
  · obtain ⟨hm, hv, -⟩ := top_eq_sbc (hcur ▸ hcs)
    exact ⟨by simp [hm, hv], by simp, by simpa using hsco, (hheld hcs).closes⟩
  · exact ⟨hcur.trans (top_clear (hcur ▸ hcs)).symm, by simp, by simpa using hsco, hheld rfl⟩

theorem stopMedia_inv {s : Sys} {env : Env} (hi : Inv s) (hc : Sound (.stop .media env) s)
    (ha : s.media_active .media = true ∨ s.curr_active_media = some .media) :
    Inv (stopMedia env (s.sendrequest (.closes .media))) := by
  have hheld := hi.held_at
  obtain ⟨hcur, hsbc, hsco, -⟩ := hi
  have hmedia : s.curr_active_media = some .media := by
    rcases ha with ha | ha
    · rw [hcur, top, if_pos ha]
    · exact ha
  unfold stopMedia
  dsimp only
  split_ifs with hm hv hcv hcm hs hcall hb hn
  · simp at hm
  · exact absurd (hcv.symm.trans hmedia) (by decide)
  · exact ⟨by simp, by simpa using hsbc, by simpa using hs, (hheld hmedia).closes.opens .voice⟩
  · exact absurd (hsco hv) hs
  · exact absurd hmedia hcm
  · exact absurd hmedia (hc hcall (Bool.eq_false_iff.2 hv)).2
  · exact ⟨by simp_all, by simp_all, by simp_all, (hheld hmedia).closes.keeps.opens .sbc⟩
  · exact absurd (hsbc.2 hb) (by simpa [show s.media_active .sbc = true from hb] using hn)
  · exact ⟨by simp_all, by simp_all, by simp_all, (hheld hmedia).closes⟩

theorem stopVoice_inv {s : Sys} (hi : Inv s) (env : Env) : Inv (stopVoice env s) := by
  have hheld := hi.held_at
  by_cases hcv : s.media_active .voice = false ∨ s.curr_active_media ≠ some .voice
  · rw [stopVoice, if_pos hcv]
    obtain ⟨hcur, hsbc, hsco, -⟩ := hi
    have htop : top s.media_active ≠ some .voice := by
      rcases hcv with hv | hcv
      · exact fun h => Bool.false_ne_true (hv.symm.trans (top_eq_voice h).2)
      · exact hcur ▸ hcv
    exact ⟨hcur.trans (top_clear htop).symm, by simpa using hsbc, by simp, hheld rfl⟩
  by_cases hring : env.app_ring_merge_isrun
  · rwa [stopVoice, if_neg hcv, if_pos hring]
  obtain ⟨hcur, hsbc, hsco, -⟩ := hi
  have hvoice : s.curr_active_media = some .voice := by simpa using (not_or.1 hcv).2
  have hm : s.media_active .media = false := (top_eq_voice (hcur ▸ hvoice)).1
  cases hb : s.media_active .sbc with
  | false =>
    have hs : stopVoice env s = { s with
        media_active := Function.update s.media_active .voice false, media_curr_sco := none, curr_active_media := none,
        log := s.log ++ [.closes .voice] } := by
      rw [stopVoice, if_neg hcv, if_neg hring]
      simp [hm, hb]
    rw [hs]
    exact ⟨by simp [hm, hb], by simpa using hsbc, by simp, (hheld hvoice).closes⟩
  | true =>
    have hsome : s.media_curr_sbc ≠ none := hsbc.2 hb
    have hs : stopVoice env s = { s with
        media_active := Function.update s.media_active .voice false, media_curr_sco := none, curr_active_media := some .sbc,
        log := ((s.log ++ [.closes .voice]) ++ [.keeps]) ++ [.opens .sbc] } := by
      rw [stopVoice, if_neg hcv, if_neg hring]
      simp [hm, hb, hsome]
    rw [hs]
    exact ⟨by simp [hm, hb], by simpa using hsbc, by simp, (hheld hvoice).closes.keeps.opens .sbc⟩

/-- The audio thread closes the prompt before the manager is told. -/
theorem Inv.closesMedia {s : Sys} (hi : Inv s) (h : s.curr_active_media ≠ some .media) :
    Inv (s.sendrequest (.closes .media)) := ⟨hi.current, hi.sbc, hi.sco, hi.held.skips h⟩

theorem step_inv {s s' : Sys} {e : Event} (hi : Inv s) (hc : Sound e s) (hs : step e s = some s') : Inv s' := by
  match e with
  | .start .sbc env =>
    cases hs
    exact startSbc_inv hi
  | .start .media env => exact startMedia_inv hi hc hs
  | .start .voice env =>
    cases hs
    exact startVoice_inv hi env
  | .stop .sbc env =>
    cases hs
    unfold btMediaStop
    split_ifs
    · exact hi
    · exact stopSbc_inv hi env
  | .stop .media env =>
    cases hs
    unfold btMediaStop
    split_ifs with hidle
    · exact hi.closesMedia hidle.2
    · rw [not_and_or, Bool.not_eq_false, not_not] at hidle
      exact stopMedia_inv hi hc hidle
  | .stop .voice env =>
    cases hs
    unfold btMediaStop
    split_ifs
    · exact hi
    · exact stopVoice_inv hi env

/-- The assertion for a prompt over the music does not fail. -/
theorem startMedia_some {s : Sys} (hi : Inv s) (env : Env) : ∃ s', startMedia env (s.setMediaType .media) = some s' := by
  have hcur := hi.current
  unfold startMedia
  split_ifs with hplay hmedia hvoice hcv hmerge hcm hcall hb hcs hwarn hcm hcn <;> try exact ⟨_, rfl⟩
  -- music is active and the voice is not: a prompt, the music or nothing is current
  simp_all

theorem step_some {s : Sys} (hi : Inv s) (e : Event) : ∃ s', step e s = some s' := by
  match e with
  | .start .media env => exact startMedia_some hi env
  | .start .sbc env | .start .voice env | .stop .sbc env | .stop .media env | .stop .voice env => exact ⟨_, rfl⟩

/-! ## The condition -/

instance (e : Event) (s : Sys) : Decidable (Sound e s) := by
  unfold Sound
  split <;> infer_instance

/-- Where the condition is not met, two streams were requested open or the current one was closed. -/
theorem not_agrees {s s' : Sys} {e : Event} (hi : Inv s) (hc : ¬ Sound e s) (hs : step e s = some s') : ¬ Agrees s' := by
  match e with
  | .start .sbc env => exact absurd trivial hc
  | .start .media env =>
    simp only [Sound, not_forall, exists_prop] at hc
    obtain ⟨hcall, hv, hcs, hplay⟩ := hc
    have hs' : startMedia env (s.setMediaType .media) = some s' := hs
    rw [startMedia, if_neg hplay, if_neg (by simp [hv]), if_pos hcall] at hs'
    cases hs'
    exact fun ha => (hi.held_at hcs).two (by decide) ha.exclusive
  | .start .voice env => exact absurd trivial hc
  | .stop .sbc env => exact absurd trivial hc
  | .stop .media env =>
    simp only [Sound, not_forall, exists_prop] at hc
    obtain ⟨hcall, hv, hactive⟩ := hc
    have hcm : s.curr_active_media = some .media := by
      by_cases hm : s.media_active .media = true
      · rw [hi.current, top, if_pos hm]
      · exact not_not.1 fun h => hactive ⟨Bool.eq_false_iff.2 hm, h⟩
    have hs' : some (btMediaStop .media env (s.sendrequest (.closes .media))) = some s' := hs
    rw [btMediaStop, if_neg fun h => h.2 hcm, stopMedia, if_neg (by simp), if_neg (by simp [hv]), if_pos hcall] at hs'
    cases hs'
    intro ha
    have hnone : none = some Stream.media := (hi.held_at hcm).closes.latest.2 ((ha.current .media).1 hcm)
    cases hnone
  | .stop .voice env => exact absurd trivial hc

/-- Nothing is active. -/
def idle : Sys := ⟨fun _ => false, none, none, none, []⟩

theorem Init.idle {s : Sys} (h : some MediaManager.idle = some s) : Init s := by
  cases h
  exact ⟨rfl, rfl, rfl, rfl, rfl⟩

/-- Neither a call nor a playback. -/
def quiet : Env := ⟨false, false, false, false, false, false, false⟩

/-- A call is active, without the voice stream. -/
def inCall : Env := { quiet with btapp_hfp_is_call_active := true }

/-- In a call a prompt that ended stays the current stream. -/
theorem prompt_stays_current : ∃ s evs, Run step (fun _ _ => True) Init s evs ∧
    s.curr_active_media = some .media ∧ ¬ Latest .media s.log := by
  obtain ⟨s, hrun, hgood⟩ := exists_run_of_check step (fun _ _ => True) Init (some idle)
    [.start .media inCall, .stop .media inCall]
    (fun s => s.curr_active_media = some .media ∧ s.log = [.opens .media, .closes .media])
    (fun _ => Init.idle) (by decide)
  have hbad : s.curr_active_media = some .media ∧ s.log = [.opens .media, .closes .media] := of_decide_eq_true hgood
  refine ⟨s, _, hrun, hbad.1, fun hlatest => ?_⟩
  have hnone : Held [.opens .media, .closes .media] (none : Option Stream) := (Held.nil.opens Stream.media).closes
  rw [hbad.2, ← hnone.latest] at hlatest
  cases hlatest

end BtApp.MediaManager
