import Mathlib.Algebra.Group.Nat.Defs
import Mathlib.Order.Monotone.Basic
import Mathlib.Tactic.Common
/-!
# The start of a prompt on both earbuds

With `TWS_PROMPT_SYNC`, `services/bt_app/audio_prompt_sbc.cpp` starts a prompt on
both earbuds at a common instant: the earbud at which it is requested measures the
interval between two playbacks, sets the instant some intervals ahead and sends it
to the peer, and each earbud starts at its first playback near or behind it.

The Bluetooth clock of the phone, which both read, has 28 bits. `moment` below is the
time in ticks since the clock started, so that it shows `moment % 2 ^ 28`.
`starts_together_iff` says when both start at the instant.
-/

namespace BtApp.PromptSync

/-! ## The code -/

/-- The clock values. -/
abbrev btClock : Nat := 2 ^ 28

/-- `curr_ticks`, of both earbuds. -/
def currTicks (moment : Nat) : Nat := moment % btClock

/-- `PROMPT_TICKS_OFFSET_TO_TRIGGER_MIX`. -/
abbrev promptTicksOffsetToTriggerMix : Nat := 10

/-- `get_prompt_trigger_delay`, with `AUDIO_ID_BT_GSOUND_MIC_OPEN`, `AUDIO_ID_BT_GSOUND_MIC_CLOSE`,
`MEDIA_SHORT_TRIGGER_DELAY` and `MEDIA_LONG_TRIGGER_DELAY`. -/
def getPromptTriggerDelay (promptId : UInt16) : Nat := if promptId = 34 ∨ promptId = 35 then 8 else 12

/-- Which links of an earbud are connected. -/
structure Links where
  tws : Bool
  mobile : Bool
  slaveIbrt : Bool

/-- `isMixPromptOn` of `audio_prompt_env`, and the static variables; the ticks are `uint32_t`. -/
structure MixPrompt where
  isMixPromptOn : Bool
  isStartMixPrompt : Bool
  mix_prompt_trigger_ticks : Nat
  playback_interval_in_ticks : Nat
  playback_last_irq_ticks : Nat

/-- The state without a prompt. -/
def noPrompt : MixPrompt := ⟨false, false, 0, 0, 0⟩

/-- `tws_enable_mix_prompt`. -/
def twsEnableMixPrompt (isEnable : Bool) (s : MixPrompt) : MixPrompt := { s with isStartMixPrompt := isEnable }

/-- `tws_calculate_mix_prompt_trigger_ticks`; none if it returns `false`. -/
def twsCalculateMixPromptTriggerTicks (promptId : UInt16) (s : MixPrompt) : Option MixPrompt :=
  if s.mix_prompt_trigger_ticks = 0 then
    if s.playback_interval_in_ticks > 0 ∧ s.playback_last_irq_ticks > 0 then
      some { s with mix_prompt_trigger_ticks :=
        (s.playback_last_irq_ticks + getPromptTriggerDelay promptId * s.playback_interval_in_ticks) % 2 ^ 32 }
    else none
  else none

/-- `tws_sync_mix_prompt_handling`: the `trigger_time` that it sends, if any. -/
def twsSyncMixPromptHandling (links : Links) (promptId : UInt16) (s : MixPrompt) : Option Nat × MixPrompt :=
  if !s.isStartMixPrompt then
    match twsCalculateMixPromptTriggerTicks promptId s with
    | some s => (if links.tws then some s.mix_prompt_trigger_ticks else none, s)
    | none => (none, s)
  else (none, s)

/-- `tws_playback_ticks_check_for_mix_prompt`. -/
def twsPlaybackTicksCheckForMixPrompt (links : Links) (curr_ticks : Nat) (s : MixPrompt) : MixPrompt :=
  if !s.isMixPromptOn || s.isStartMixPrompt then s
  else if !links.mobile && !links.slaveIbrt then twsEnableMixPrompt true s
  else
    let trigger := s.mix_prompt_trigger_ticks
    let s :=
      if trigger > 0 then
        if curr_ticks ≥ trigger then twsEnableMixPrompt true s
        else if curr_ticks < trigger ∧ trigger - curr_ticks < promptTicksOffsetToTriggerMix then twsEnableMixPrompt true s
        else s
      else s
    let s :=
      if 0 ≠ s.playback_last_irq_ticks then
        { s with playback_interval_in_ticks := (curr_ticks + 2 ^ 32 - s.playback_last_irq_ticks) % 2 ^ 32 }
      else s
    { s with playback_last_irq_ticks := curr_ticks }

/-- A playback: the post handler of `app_bt_stream.cpp`, up to the mixing. -/
def playbackPostHandler (links : Links) (promptId : UInt16) (curr_ticks : Nat) (s : MixPrompt) : Option Nat × MixPrompt :=
  let s := twsPlaybackTicksCheckForMixPrompt links curr_ticks s
  if s.isMixPromptOn then twsSyncMixPromptHandling links promptId s else (none, s)

/-- `audio_prompt_start_playing`. -/
def audioPromptStartPlaying (links : Links) (s : MixPrompt) : MixPrompt :=
  if s.isMixPromptOn then s else twsEnableMixPrompt (!links.tws) { s with isMixPromptOn := true }

/-- `audio_prompt_stop_playing`, with `tws_reset_mix_prompt_trigger_ticks`. -/
def audioPromptStopPlaying (s : MixPrompt) : MixPrompt := if s.isMixPromptOn then noPrompt else s

/-- `app_tws_cmd_sync_mix_prompt_req_handler`, which returns directly or starts the prompt. -/
def appTwsCmdSyncMixPromptReqHandler (links : Links) (curr_ticks trigger_time : Nat) (s : MixPrompt) : MixPrompt :=
  let s := audioPromptStopPlaying s
  if !links.slaveIbrt ∨ (curr_ticks > trigger_time ∧ curr_ticks - trigger_time > promptTicksOffsetToTriggerMix) then s
  else
    let s := audioPromptStartPlaying links { s with mix_prompt_trigger_ticks := trigger_time }
    if curr_ticks ≥ trigger_time then twsEnableMixPrompt true s
    else if curr_ticks < trigger_time ∧ trigger_time - curr_ticks < promptTicksOffsetToTriggerMix then twsEnableMixPrompt true s
    else s

/-! ## Both earbuds -/

/-- The earbud with the phone, at which the prompt is requested. -/
def master : Links := ⟨true, true, false⟩

/-- Its peer. -/
def slave : Links := ⟨true, false, true⟩

/-- The state in front of the `j`-th playback, with the playbacks at these moments. -/
def playbacks (links : Links) (promptId : UInt16) (moment : Nat → Nat) (s : MixPrompt) : Nat → MixPrompt
  | 0 => s
  | j + 1 => (playbackPostHandler links promptId (currTicks (moment j)) (playbacks links promptId moment s j)).2

/-- A prompt is requested, and played back in the interval `interval` from the moment `first` on;
the request reaches the peer `latency` ticks after it was sent, and the peer plays back for the
first time behind that `gap` ticks later. -/
structure Scenario where
  promptId : UInt16
  first : Nat
  interval : Nat
  latency : Nat
  gap : Nat
  /-- The peer's state before. -/
  peer : MixPrompt
  interval_pos : 0 < interval
  interval_lt : interval < btClock
  gap_pos : 0 < gap
  gap_le : gap ≤ interval

namespace Scenario

variable (c : Scenario)

/-- The moment of the `j`-th playback. -/
def moment (j : Nat) : Nat := c.first + j * c.interval

/-- The earbud at which the prompt is requested, in front of its `j`-th playback. -/
def requester : Nat → MixPrompt := playbacks master c.promptId c.moment (audioPromptStartPlaying master noPrompt)

/-- The request that it sends in the `j`-th playback. -/
def sent (j : Nat) : Option Nat := (playbackPostHandler master c.promptId (currTicks (c.moment j)) (c.requester j)).1

/-- The instant, when the request is sent in the `k`-th playback. -/
def instant (k : Nat) : Nat := c.moment k + getPromptTriggerDelay c.promptId * c.interval

/-- When the request reaches the peer, -/
def arrival (k : Nat) : Nat := c.moment k + c.latency

/-- and the peer's playbacks behind that. -/
def peerMoment (k j : Nat) : Nat := c.arrival k + c.gap + j * c.interval

/-- The peer behind the request, in front of its `j`-th playback. -/
def replica (k trigger_time : Nat) : Nat → MixPrompt :=
  playbacks slave c.promptId (c.peerMoment k)
    (appTwsCmdSyncMixPromptReqHandler slave (currTicks (c.arrival k)) trigger_time c.peer)

end Scenario

/-- The mixing is enabled in a playback, at the moment `t`. -/
def EnabledAt (state : Nat → MixPrompt) (moment : Nat → Nat) (t : Nat) : Prop :=
  ∃ j, (state j).isStartMixPrompt = false ∧ (state (j + 1)).isStartMixPrompt = true ∧ t = moment j

/-- The two moments are at most the offset and an interval apart. -/
def InTime (instant interval t : Nat) : Prop :=
  t ≤ instant + (promptTicksOffsetToTriggerMix + interval) ∧ instant ≤ t + (promptTicksOffsetToTriggerMix + interval)

namespace Scenario

variable (c : Scenario)

/-- The peer is enabled by the request itself or in a playback. -/
def PeerEnabledAt (k trigger_time t : Nat) : Prop :=
  ((c.replica k trigger_time 0).isStartMixPrompt = true ∧ t = c.arrival k) ∨
    EnabledAt (c.replica k trigger_time) (c.peerMoment k) t

/-- The mixing is enabled in time on the earbud that sent the request, and on its peer, or this
rejects the request more than the offset behind the instant. -/
def Together (k trigger_time : Nat) : Prop :=
  currTicks trigger_time = currTicks (c.instant k) ∧
    (∃ t, EnabledAt c.requester c.moment t ∧ InTime (c.instant k) c.interval t) ∧
    (((c.replica k trigger_time 0).isMixPromptOn = true ∧
        ∃ t, c.PeerEnabledAt k trigger_time t ∧ InTime (c.instant k) c.interval t) ∨
      ((c.replica k trigger_time 0).isMixPromptOn = false ∧
        c.instant k + promptTicksOffsetToTriggerMix < c.arrival k))

/-- A request is sent, and both earbuds start together. -/
def StartsTogether : Prop :=
  ∃ k trigger_time, c.sent k = some trigger_time ∧ (∀ j < k, c.sent j = none) ∧ c.Together k trigger_time

/-- When the clock wraps for the first time behind the first playback. -/
def wrap : Nat := (c.first / btClock + 1) * btClock

/-- The playback in which the request is sent if the clock does not wrap before: the second
one, and the third if the clock is 0 in the first. -/
def requestAt : Nat := if currTicks c.first = 0 then 2 else 1

/-- A moment behind or near the instant, before the clock wraps. -/
def Near (t : Nat) : Prop := c.instant c.requestAt < t + promptTicksOffsetToTriggerMix ∧ t < c.wrap

/-- Before the clock wraps, the earbud at which the prompt is requested has a playback near the
instant, and so has the peer, or gets the request then, or it gets it at a clock value
more than the offset behind the instant. -/
def NoWrap : Prop :=
  (∃ j > c.requestAt, c.Near (c.moment j)) ∧
    (c.Near (c.arrival c.requestAt) ∨ (∃ j, c.Near (c.peerMoment c.requestAt j)) ∨
      c.instant c.requestAt + promptTicksOffsetToTriggerMix + btClock < c.wrap + currTicks (c.arrival c.requestAt))

end Scenario

/-! ## Playbacks -/

/-- The prompt waits for the trigger. -/
structure Waiting (trigger : Nat) (s : MixPrompt) : Prop where
  on : s.isMixPromptOn = true
  not_started : s.isStartMixPrompt = false
  trigger_eq : s.mix_prompt_trigger_ticks = trigger

section Playbacks

variable {links : Links} {promptId : UInt16} {s : MixPrompt} {trigger curr t j k : Nat} {moment : Nat → Nat}

theorem post_started (hstart : s.isStartMixPrompt = true) : playbackPostHandler links promptId curr s = (none, s) := by
  simp [playbackPostHandler, twsPlaybackTicksCheckForMixPrompt, twsSyncMixPromptHandling, hstart]

/-- The check for the trigger: it is past, or near. -/
theorem near_or_past (trigger curr : Nat) :
    (curr ≥ trigger ∨ curr < trigger ∧ trigger - curr < promptTicksOffsetToTriggerMix) ↔ trigger < curr + 10 := by
  simp only [promptTicksOffsetToTriggerMix]
  omega

/-- While it waits, a playback starts the prompt if the trigger is near or past. -/
theorem check_waiting (curr : Nat) (hlinks : (links.mobile || links.slaveIbrt) = true) (hpos : 0 < trigger) (hs : Waiting trigger s) :
    (twsPlaybackTicksCheckForMixPrompt links curr s).isMixPromptOn = true ∧
      (twsPlaybackTicksCheckForMixPrompt links curr s).isStartMixPrompt = decide (trigger < curr + 10) ∧
      (twsPlaybackTicksCheckForMixPrompt links curr s).mix_prompt_trigger_ticks = trigger := by
  obtain ⟨on, start, trig, interval, last⟩ := s
  obtain ⟨rfl, rfl, rfl⟩ := hs
  have hsome : (!links.mobile && !links.slaveIbrt) = false := by
    rw [← Bool.not_or, hlinks]
    rfl
  have hnear := near_or_past trig curr
  simp only [twsPlaybackTicksCheckForMixPrompt, Bool.not_true, Bool.or_false, Bool.false_eq_true, if_false, hsome, hpos, if_true]
  by_cases hpast : curr ≥ trig
  · simp only [hpast, if_true, twsEnableMixPrompt, decide_eq_true (hnear.mp (.inl hpast))]
    split <;> exact ⟨rfl, rfl, rfl⟩
  · by_cases hclose : curr < trig ∧ trig - curr < promptTicksOffsetToTriggerMix
    · simp only [hpast, hclose, if_false, if_true, and_self, twsEnableMixPrompt, decide_eq_true (hnear.mp (.inr hclose))]
      split <;> exact ⟨rfl, rfl, rfl⟩
    · have hfar : ¬trig < curr + 10 := fun h => (hnear.mpr h).elim hpast hclose
      simp only [hpast, hclose, if_false, decide_eq_false hfar]
      split <;> exact ⟨rfl, rfl, rfl⟩

/-- So a playback starts the prompt, or it waits on. -/
theorem post_waiting (promptId : UInt16) (hlinks : (links.mobile || links.slaveIbrt) = true) (hpos : 0 < trigger) (hs : Waiting trigger s) :
    (playbackPostHandler links promptId curr s).2.isStartMixPrompt = decide (trigger < curr + 10) ∧
      (¬trigger < curr + 10 → Waiting trigger (playbackPostHandler links promptId curr s).2) := by
  obtain ⟨hon, hstart, htrigger⟩ := check_waiting curr hlinks hpos hs
  have hpost : (playbackPostHandler links promptId curr s).2 = twsPlaybackTicksCheckForMixPrompt links curr s := by
    have hset : (twsPlaybackTicksCheckForMixPrompt links curr s).mix_prompt_trigger_ticks ≠ 0 := by
      rw [htrigger]
      exact Nat.ne_of_gt hpos
    simp only [playbackPostHandler, hon, if_true, twsSyncMixPromptHandling, twsCalculateMixPromptTriggerTicks, hset, if_false]
    split <;> rfl
  rw [hpost]
  refine ⟨hstart, fun hfar => ⟨hon, ?_, htrigger⟩⟩
  rw [hstart, decide_eq_false hfar]

/-- What is started stays so. -/
theorem started_mono {s₀ : MixPrompt} (hjk : j ≤ k) (hstart : (playbacks links promptId moment s₀ j).isStartMixPrompt = true) :
    (playbacks links promptId moment s₀ k).isStartMixPrompt = true := by
  induction hjk with
  | refl => exact hstart
  | step _ ih =>
    rw [playbacks, post_started ih]
    exact ih

/-- From where it waits, it waits on while the trigger is neither near nor past. -/
theorem waiting_while {s₀ : MixPrompt} (hlinks : (links.mobile || links.slaveIbrt) = true) (hpos : 0 < trigger)
    (hwait : Waiting trigger (playbacks links promptId moment s₀ k)) (hkj : k ≤ j)
    (hfar : ∀ i, k ≤ i → i < j → ¬trigger < currTicks (moment i) + 10) :
    Waiting trigger (playbacks links promptId moment s₀ j) := by
  induction hkj with
  | refl => exact hwait
  | @step j hkj ih =>
    have hwait' := ih fun i hki hij => hfar i hki (Nat.lt_succ_of_lt hij)
    exact (post_waiting _ hlinks hpos hwait').2 (hfar j hkj (Nat.lt_succ_self j))

/-- It starts in the first playback from there on with the trigger near or past. -/
theorem enabledAt_iff {s₀ : MixPrompt} (hlinks : (links.mobile || links.slaveIbrt) = true) (hpos : 0 < trigger)
    (hwait : Waiting trigger (playbacks links promptId moment s₀ k)) :
    EnabledAt (playbacks links promptId moment s₀) moment t ↔
      ∃ j, k ≤ j ∧ t = moment j ∧ trigger < currTicks (moment j) + 10 ∧
        ∀ i, k ≤ i → i < j → ¬trigger < currTicks (moment i) + 10 := by
  constructor
  · rintro ⟨j, hbefore, hafter, rfl⟩
    have hkj : k ≤ j := by
      by_contra hjk
      have := started_mono (show j + 1 ≤ k by omega) hafter
      rw [hwait.not_started] at this
      exact Bool.noConfusion this
    have hfar : ∀ i, k ≤ i → i < j → ¬trigger < currTicks (moment i) + 10 := by
      intro i hki
      induction i using Nat.strongRecOn with
      | _ i ih =>
        intro hij hnear
        have hwait' := waiting_while hlinks hpos hwait hki fun i' hki' hi' => ih i' hi' hki' (Nat.lt_trans hi' hij)
        have hstarted := (post_waiting promptId hlinks hpos hwait').1.trans (decide_eq_true hnear)
        have := started_mono (show i + 1 ≤ j from hij) hstarted
        rw [hbefore] at this
        exact Bool.noConfusion this
    refine ⟨j, hkj, rfl, ?_, hfar⟩
    have hwait' := waiting_while hlinks hpos hwait hkj hfar
    exact of_decide_eq_true ((post_waiting _ hlinks hpos hwait').1.symm.trans hafter)
  · rintro ⟨j, hkj, rfl, hnear, hfar⟩
    have hwait' := waiting_while hlinks hpos hwait hkj hfar
    exact ⟨j, hwait'.not_started, (post_waiting _ hlinks hpos hwait').1.trans (decide_eq_true hnear), rfl⟩

end Playbacks

/-! ## The request -/

/-- The prompt is on, and no trigger is set. -/
def measuring (interval last : Nat) : MixPrompt := ⟨true, false, 0, interval, last⟩

/-- The interval behind a playback at `curr`. -/
def measured (interval last curr : Nat) : Nat := if last = 0 then interval else (curr + 2 ^ 32 - last) % 2 ^ 32

@[simp] theorem measured_zero (interval curr : Nat) : measured interval 0 curr = interval := rfl

theorem measured_of_le (interval : Nat) {last curr : Nat} (hlast : 0 < last) (hle : last ≤ curr) (hcurr : curr < 2 ^ 28) :
    measured interval last curr = curr - last := by
  rw [measured, if_neg (Nat.ne_of_gt hlast)]
  omega

theorem measured_of_gt (interval : Nat) {last curr : Nat} (hgt : curr < last) :
    measured interval last curr = curr + 2 ^ 32 - last := by
  rw [measured, if_neg (Nat.ne_of_gt (Nat.zero_lt_of_lt hgt)), Nat.mod_eq_of_lt (by omega)]

/-- The trigger that is set then. -/
def trigger (promptId : UInt16) (interval curr : Nat) : Nat := (curr + getPromptTriggerDelay promptId * interval) % 2 ^ 32

section Request

variable {promptId : UInt16} {interval last curr : Nat}

theorem check_measuring : twsPlaybackTicksCheckForMixPrompt master curr (measuring interval last) =
    measuring (measured interval last curr) curr := by
  by_cases hlast : last = 0
  · subst hlast
    rfl
  · simp only [measured, hlast, if_false]
    simp [twsPlaybackTicksCheckForMixPrompt, measuring, master, Ne.symm hlast]

/-- Without an interval or a last playback at a clock value other than 0 nothing is sent, -/
theorem post_measuring (hno : ¬(measured interval last curr > 0 ∧ curr > 0)) :
    playbackPostHandler master promptId curr (measuring interval last) = (none, measuring (measured interval last curr) curr) := by
  rw [playbackPostHandler, check_measuring]
  simp only [measuring, if_true, twsSyncMixPromptHandling, Bool.not_false, twsCalculateMixPromptTriggerTicks, hno, if_false]

/-- and else the trigger is set and sent. -/
theorem post_request (hyes : measured interval last curr > 0 ∧ curr > 0) :
    playbackPostHandler master promptId curr (measuring interval last) =
      (some (trigger promptId (measured interval last curr) curr),
        { measuring (measured interval last curr) curr with
          mix_prompt_trigger_ticks := trigger promptId (measured interval last curr) curr }) := by
  rw [playbackPostHandler, check_measuring]
  simp only [measuring, if_true, twsSyncMixPromptHandling, Bool.not_false, twsCalculateMixPromptTriggerTicks, hyes, and_self,
    master]
  rfl

end Request

namespace Scenario

variable {c : Scenario} {j k interval last : Nat}

theorem moment_succ (c : Scenario) (j : Nat) : c.moment (j + 1) = c.moment j + c.interval := by
  rw [moment, moment, Nat.succ_mul, Nat.add_assoc]

/-- Nothing was sent in front of the `j`-th playback. -/
structure Measuring (c : Scenario) (j interval last : Nat) : Prop where
  requester_eq : c.requester j = measuring interval last
  not_sent : ∀ i < j, c.sent i = none

/-- The first request is sent in the `k`-th playback. -/
structure Requested (c : Scenario) (k interval : Nat) : Prop where
  not_sent : ∀ i < k, c.sent i = none
  sent_eq : c.sent k = some (trigger c.promptId interval (currTicks (c.moment k)))
  curr_pos : 0 < currTicks (c.moment k)
  requester_eq : c.requester (k + 1) =
    { measuring interval (currTicks (c.moment k)) with
      mix_prompt_trigger_ticks := trigger c.promptId interval (currTicks (c.moment k)) }

theorem measuring_zero (c : Scenario) : c.Measuring 0 0 0 where
  requester_eq := rfl
  not_sent := fun i hi => absurd hi (Nat.not_lt_zero i)

theorem Measuring.next (h : c.Measuring j interval last)
    (hno : ¬(measured interval last (currTicks (c.moment j)) > 0 ∧ currTicks (c.moment j) > 0)) :
    c.Measuring (j + 1) (measured interval last (currTicks (c.moment j))) (currTicks (c.moment j)) where
  requester_eq := by
    change (playbackPostHandler master c.promptId (currTicks (c.moment j)) (c.requester j)).2 = _
    rw [h.requester_eq, post_measuring hno]
  not_sent := by
    intro i hi
    rcases Nat.lt_succ_iff_lt_or_eq.mp hi with hlt | rfl
    · exact h.not_sent i hlt
    · rw [sent, h.requester_eq, post_measuring hno]

theorem Measuring.requested (h : c.Measuring j interval last)
    (hyes : measured interval last (currTicks (c.moment j)) > 0 ∧ currTicks (c.moment j) > 0) :
    c.Requested j (measured interval last (currTicks (c.moment j))) where
  not_sent := h.not_sent
  sent_eq := by rw [sent, h.requester_eq, post_request hyes]
  curr_pos := hyes.2
  requester_eq := by
    change (playbackPostHandler master c.promptId (currTicks (c.moment j)) (c.requester j)).2 = _
    rw [h.requester_eq, post_request hyes]

theorem currTicks_add (moment interval : Nat) : currTicks (moment + interval) = (currTicks moment + interval) % 2 ^ 28 := by
  rw [currTicks, currTicks, btClock, Nat.mod_add_mod]

theorem wrap_eq (c : Scenario) : c.first + 2 ^ 28 = c.wrap + currTicks c.first := by
  rw [wrap, currTicks, btClock]
  omega

theorem currTicks_moment_succ (c : Scenario) (j : Nat) :
    currTicks (c.moment (j + 1)) = (currTicks (c.moment j) + c.interval) % 2 ^ 28 := by
  rw [moment_succ, currTicks_add]

/-- The interval that is sent: the right one if the clock did not wrap since the first
playback, and else 15 clock cycles too long. -/
def RightInterval (c : Scenario) (k interval : Nat) : Prop :=
  (k = c.requestAt ∧ c.moment k < c.wrap ∧ interval = c.interval) ∨
    (c.wrap ≤ c.moment c.requestAt ∧ interval = c.interval + 15 * 2 ^ 28 ∧ currTicks (c.moment k) ≤ c.interval)

/-- The clock behind an interval, which it wraps in at most once. -/
theorem currTicks_next (c : Scenario) (j : Nat) : currTicks (c.moment j) < 2 ^ 28 ∧
    ((currTicks (c.moment j) + c.interval < 2 ^ 28 ∧ currTicks (c.moment (j + 1)) = currTicks (c.moment j) + c.interval) ∨
      (2 ^ 28 ≤ currTicks (c.moment j) + c.interval ∧
        currTicks (c.moment (j + 1)) + 2 ^ 28 = currTicks (c.moment j) + c.interval)) := by
  have hlt : c.interval < 2 ^ 28 := c.interval_lt
  have hcurr : currTicks (c.moment j) < 2 ^ 28 := Nat.mod_lt _ (by decide)
  rw [currTicks_moment_succ]
  omega

/-- The second of two playbacks sends the request, with the interval between them. -/
theorem Measuring.requested_next (h : c.Measuring (j + 1) interval (currTicks (c.moment j)))
    (hlast : 0 < currTicks (c.moment j)) (hcurr : 0 < currTicks (c.moment (j + 1))) :
    ∃ interval, c.Requested (j + 1) interval ∧
      ((currTicks (c.moment j) + c.interval < 2 ^ 28 ∧ interval = c.interval) ∨
        (2 ^ 28 ≤ currTicks (c.moment j) + c.interval ∧ interval = c.interval + 15 * 2 ^ 28 ∧
          currTicks (c.moment (j + 1)) ≤ c.interval)) := by
  have hpos := c.interval_pos
  have hlt : c.interval < 2 ^ 28 := c.interval_lt
  obtain ⟨hbound, hnext⟩ := c.currTicks_next j
  rcases hnext with ⟨hroom, hcurr_eq⟩ | ⟨hwrap, hcurr_eq⟩
  · have hmeasured := measured_of_le interval hlast (by omega : currTicks (c.moment j) ≤ currTicks (c.moment (j + 1)))
      (by omega)
    exact ⟨_, h.requested ⟨by omega, hcurr⟩, .inl ⟨hroom, by omega⟩⟩
  · have hmeasured := measured_of_gt interval (by omega : currTicks (c.moment (j + 1)) < currTicks (c.moment j))
    exact ⟨_, h.requested ⟨by omega, hcurr⟩, .inr ⟨hwrap, by omega, by omega⟩⟩

/-- At a wrap to the clock value 0 it takes one playback more, and the interval is too long. -/
theorem Measuring.requested_second (h : c.Measuring (j + 1) interval (currTicks (c.moment j)))
    (hlast : 0 < currTicks (c.moment j)) (hcurr : currTicks (c.moment (j + 1)) = 0) :
    c.Requested (j + 2) (c.interval + 15 * 2 ^ 28) ∧ currTicks (c.moment (j + 2)) = c.interval ∧
      2 ^ 28 ≤ currTicks (c.moment j) + c.interval := by
  have hpos := c.interval_pos
  have hlt : c.interval < 2 ^ 28 := c.interval_lt
  obtain ⟨hbound, hnext⟩ := c.currTicks_next j
  rw [hcurr] at hnext
  have hsecond : currTicks (c.moment (j + 2)) = c.interval := by
    rw [c.currTicks_moment_succ (j + 1), hcurr, Nat.zero_add, Nat.mod_eq_of_lt hlt]
  have hmeasured := measured_of_gt interval hlast
  have hmeasuring := h.next fun hyes => absurd hcurr (Nat.ne_of_gt hyes.2)
  rw [hcurr, hmeasured] at hmeasuring
  have heq : 0 + 2 ^ 32 - currTicks (c.moment j) = c.interval + 15 * 2 ^ 28 := by omega
  rw [heq] at hmeasuring
  have hcurr_pos : 0 < currTicks (c.moment (j + 2)) := hsecond ▸ hpos
  have hrequested := hmeasuring.requested ⟨by rw [measured_zero]; omega, hcurr_pos⟩
  rw [measured_zero] at hrequested
  exact ⟨hrequested, hsecond, by omega⟩

/-- So a request is sent, whatever the clock is. -/
theorem exists_requested (c : Scenario) : ∃ k interval, c.Requested k interval ∧ c.RightInterval k interval := by
  have hpos := c.interval_pos
  have hlt : c.interval < 2 ^ 28 := c.interval_lt
  have h0 : c.moment 0 = c.first := by rw [moment, Nat.zero_mul, Nat.add_zero]
  have h1 : c.moment 1 = c.moment 0 + c.interval := c.moment_succ 0
  have h2 : c.moment 2 = c.moment 1 + c.interval := c.moment_succ 1
  have hwrap := c.wrap_eq
  rw [← h0] at hwrap
  have hfirst : c.Measuring 1 0 (currTicks (c.moment 0)) := (measuring_zero c).next (by simp)
  rcases Nat.eq_zero_or_pos (currTicks c.first) with hzero | hlast
  · -- the first playback is taken for none
    have hat : c.requestAt = 2 := if_pos hzero
    rw [← h0] at hzero
    have hone : currTicks (c.moment 1) = c.interval := by
      rw [c.currTicks_moment_succ 0, hzero, Nat.zero_add, Nat.mod_eq_of_lt hlt]
    have hsecond : c.Measuring 2 0 (currTicks (c.moment 1)) := by
      rw [hzero] at hfirst
      exact hfirst.next (by simp)
    rcases Nat.eq_zero_or_pos (currTicks (c.moment 2)) with htwo | htwo
    · obtain ⟨hreq, hcurr, hover⟩ := hsecond.requested_second (by omega) htwo
      exact ⟨3, _, hreq, .inr ⟨by rw [hat]; omega, rfl, Nat.le_of_eq hcurr⟩⟩
    · obtain ⟨interval, hreq, hcases⟩ := hsecond.requested_next (by omega) htwo
      simp only [Nat.reduceAdd] at hcases
      refine ⟨2, interval, hreq, ?_⟩
      rw [RightInterval, hat]
      omega
  · have hat : c.requestAt = 1 := if_neg (Nat.ne_of_gt hlast)
    rw [← h0] at hlast
    rcases Nat.eq_zero_or_pos (currTicks (c.moment 1)) with hone | hone
    · obtain ⟨hreq, hcurr, hover⟩ := hfirst.requested_second hlast hone
      exact ⟨2, _, hreq, .inr ⟨by rw [hat]; omega, rfl, Nat.le_of_eq hcurr⟩⟩
    · obtain ⟨interval, hreq, hcases⟩ := hfirst.requested_next hlast hone
      simp only [Nat.reduceAdd] at hcases
      refine ⟨1, interval, hreq, ?_⟩
      rw [RightInterval, hat]
      omega

theorem Requested.starts_iff (h : c.Requested k interval) :
    c.StartsTogether ↔ c.Together k (trigger c.promptId interval (currTicks (c.moment k))) := by
  constructor
  · rintro ⟨k', trigger_time, hsent, hnone, htogether⟩
    rcases Nat.lt_trichotomy k k' with hlt | rfl | hgt
    · have := hnone k hlt
      rw [h.sent_eq] at this
      exact absurd this (Option.some_ne_none _)
    · rw [h.sent_eq] at hsent
      rw [Option.some.inj hsent]
      exact htogether
    · have := h.not_sent k' hgt
      rw [hsent] at this
      exact absurd this (Option.some_ne_none _)
  · exact fun htogether => ⟨k, _, h.sent_eq, h.not_sent, htogether⟩

/-! ## Without a wrap -/

theorem delay_cases (promptId : UInt16) : getPromptTriggerDelay promptId = 8 ∨ getPromptTriggerDelay promptId = 12 := by
  rw [getPromptTriggerDelay]
  split
  · exact .inl rfl
  · exact .inr rfl

theorem first_le_moment (c : Scenario) (j : Nat) : c.first ≤ c.moment j := Nat.le_add_right _ _

theorem moment_mono (c : Scenario) {i j : Nat} (hij : i ≤ j) : c.moment i ≤ c.moment j :=
  Nat.add_le_add_left (Nat.mul_le_mul_right _ hij) _

/-- The clock before it wraps, -/
theorem currTicks_of_lt {t : Nat} (hfirst : c.first ≤ t) (ht : t < c.wrap) : currTicks t + c.wrap = t + 2 ^ 28 := by
  simp only [currTicks, wrap, btClock] at ht ⊢
  omega

/-- and behind that. -/
theorem currTicks_of_wrap_le {t : Nat} (ht : c.wrap ≤ t) : currTicks t + c.wrap ≤ t := by
  simp only [currTicks, wrap, btClock] at ht ⊢
  omega

/-- The trigger of a request before the clock wraps. -/
theorem trigger_right (hk : c.moment k < c.wrap) :
    trigger c.promptId c.interval (currTicks (c.moment k)) + c.wrap = c.instant k + 2 ^ 28 ∧
      8 * c.interval ≤ trigger c.promptId c.interval (currTicks (c.moment k)) := by
  have hlt : c.interval < 2 ^ 28 := c.interval_lt
  have hcurr := currTicks_of_lt (c.first_le_moment k) hk
  have hbound : currTicks (c.moment k) < 2 ^ 28 := Nat.mod_lt _ (by decide)
  rw [trigger, instant]
  rcases delay_cases c.promptId with hdelay | hdelay
  all_goals
    rw [hdelay, Nat.mod_eq_of_lt (by omega)]
    omega

section Right

variable {T t : Nat}

/-- Before the clock wraps, the check compares the moment with the instant, -/
theorem near_iff (hT : T + c.wrap = c.instant c.requestAt + 2 ^ 28) (hfirst : c.first ≤ t) (ht : t < c.wrap) :
    T < currTicks t + 10 ↔ c.Near t := by
  have hcurr := currTicks_of_lt hfirst ht
  simp only [Near, promptTicksOffsetToTriggerMix]
  omega

/-- and behind that it succeeds only about a clock cycle later. -/
theorem late_of_wrap (hT : T + c.wrap = c.instant c.requestAt + 2 ^ 28) (hle : 8 * c.interval ≤ T) (ht : c.wrap ≤ t)
    (hnear : T < currTicks t + 10) : ¬InTime (c.instant c.requestAt) c.interval t := by
  have hcurr := currTicks_of_wrap_le ht
  have hbound : currTicks t < 2 ^ 28 := Nat.mod_lt _ (by decide)
  simp only [InTime, promptTicksOffsetToTriggerMix]
  omega

theorem exists_first {P : Nat → Prop} {j k : Nat} (hkj : k ≤ j) (hj : P j) :
    ∃ i, k ≤ i ∧ i ≤ j ∧ P i ∧ ∀ i', k ≤ i' → i' < i → ¬P i' := by
  induction j using Nat.strongRecOn with
  | _ j ih =>
    by_cases hearlier : ∃ i, k ≤ i ∧ i < j ∧ P i
    · obtain ⟨i, hki, hij, hi⟩ := hearlier
      obtain ⟨i', hki', hle, hi', hmin⟩ := ih i hij hki hi
      exact ⟨i', hki', Nat.le_trans hle (Nat.le_of_lt hij), hi', hmin⟩
    · exact ⟨j, hkj, Nat.le_refl j, hj, fun i hki hij hi => hearlier ⟨i, hki, hij, hi⟩⟩

/-- An earbud that waits for the trigger starts in time if and only if it has a playback near
or behind the instant before the clock wraps. -/
theorem enabled_in_time_iff {links : Links} {moment : Nat → Nat} (s₀ : MixPrompt)
    (hT : T + c.wrap = c.instant c.requestAt + 2 ^ 28) (hle : 8 * c.interval ≤ T) (hlinks : (links.mobile || links.slaveIbrt) = true)
    (hwait : Waiting T (playbacks links c.promptId moment s₀ k)) (hsucc : ∀ j, moment (j + 1) = moment j + c.interval)
    (hfirst : ∀ j, c.first ≤ moment j)
    (hstart : moment k < c.wrap → moment k ≤ c.instant c.requestAt + (10 + c.interval)) :
    (∃ t, EnabledAt (playbacks links c.promptId moment s₀) moment t ∧ InTime (c.instant c.requestAt) c.interval t) ↔
      ∃ j ≥ k, c.Near (moment j) := by
  have hpos := c.interval_pos
  have hmono : ∀ {i j : Nat}, i ≤ j → moment i ≤ moment j := fun hij =>
    monotone_nat_of_le_succ (fun j => by rw [hsucc]; exact Nat.le_add_right _ _) hij
  constructor
  · rintro ⟨t, henabled, htime⟩
    obtain ⟨j, hkj, rfl, hnear, _⟩ := (enabledAt_iff hlinks (by omega) hwait).mp henabled
    rcases Nat.lt_or_ge (moment j) c.wrap with hlt | hge
    · exact ⟨j, hkj, (near_iff hT (hfirst j) hlt).mp hnear⟩
    · exact absurd htime (late_of_wrap hT hle hge hnear)
  · rintro ⟨j, hkj, hnear⟩
    have hcheck := (near_iff hT (hfirst j) hnear.2).mpr hnear
    obtain ⟨i, hki, hij, hi, hmin⟩ := exists_first (P := fun i => T < currTicks (moment i) + 10) hkj hcheck
    have hwrap : moment i < c.wrap := Nat.lt_of_le_of_lt (hmono hij) hnear.2
    have hnear_i := (near_iff hT (hfirst i) hwrap).mp hi
    refine ⟨moment i, (enabledAt_iff hlinks (by omega) hwait).mpr ⟨i, hki, rfl, hi, hmin⟩, ?_, ?_⟩
    · rcases Nat.eq_or_lt_of_le hki with rfl | hlt
      · exact hstart hwrap
      · -- the playback before was not yet near
        obtain ⟨i, rfl⟩ : ∃ i', i = i' + 1 := ⟨i - 1, by omega⟩
        have hprev := hmin i (Nat.le_of_lt_succ hlt) (Nat.lt_succ_self i)
        have hsucc_i := hsucc i
        rw [near_iff hT (hfirst i) (by omega)] at hprev
        simp only [Near, promptTicksOffsetToTriggerMix, not_and] at hprev ⊢
        have hprev' : ¬c.instant c.requestAt < moment i + 10 := fun hlt' => hprev hlt' (by omega)
        omega
    · have hnear_i := hnear_i.1
      simp only [promptTicksOffsetToTriggerMix] at hnear_i ⊢
      omega

theorem Requested.waiting (h : c.Requested k interval) :
    Waiting (trigger c.promptId interval (currTicks (c.moment k))) (c.requester (k + 1)) := by
  rw [h.requester_eq]
  exact ⟨rfl, rfl, rfl⟩

/-- The earbud that sent the request. -/
theorem Requested.in_time_iff (h : c.Requested c.requestAt interval)
    (hT : trigger c.promptId interval (currTicks (c.moment c.requestAt)) + c.wrap = c.instant c.requestAt + 2 ^ 28)
    (hle : 8 * c.interval ≤ trigger c.promptId interval (currTicks (c.moment c.requestAt))) :
    (∃ t, EnabledAt c.requester c.moment t ∧ InTime (c.instant c.requestAt) c.interval t) ↔
      ∃ j > c.requestAt, c.Near (c.moment j) := by
  refine enabled_in_time_iff _ hT hle rfl h.waiting c.moment_succ c.first_le_moment fun _ => ?_
  rw [moment_succ, instant]
  rcases delay_cases c.promptId with hdelay | hdelay
  all_goals
    rw [hdelay]
    omega

/-- The peer returns directly, -/
theorem handler_rejects {curr : Nat} {peer : MixPrompt} (hlate : T + 10 < curr) :
    (appTwsCmdSyncMixPromptReqHandler slave curr T peer).isMixPromptOn = false := by
  have hreject : curr > T ∧ curr - T > promptTicksOffsetToTriggerMix := by
    simp only [promptTicksOffsetToTriggerMix]
    omega
  rw [appTwsCmdSyncMixPromptReqHandler, if_pos (.inr hreject), audioPromptStopPlaying]
  split
  · rfl
  · rename_i hoff
    exact Bool.eq_false_iff.mpr hoff

/-- or starts the prompt, enabled at once if the trigger is near or past. -/
theorem handler_accepts {curr : Nat} (peer : MixPrompt) (hok : ¬T + 10 < curr) :
    (appTwsCmdSyncMixPromptReqHandler slave curr T peer).isMixPromptOn = true ∧
      (appTwsCmdSyncMixPromptReqHandler slave curr T peer).isStartMixPrompt = decide (T < curr + 10) ∧
      (appTwsCmdSyncMixPromptReqHandler slave curr T peer).mix_prompt_trigger_ticks = T := by
  have haccept : ¬((!slave.slaveIbrt) = true ∨ (curr > T ∧ curr - T > promptTicksOffsetToTriggerMix)) := by
    simp only [slave, promptTicksOffsetToTriggerMix, Bool.not_true, Bool.false_eq_true, false_or]
    omega
  have hoff : (audioPromptStopPlaying peer).isMixPromptOn = false := by
    rw [audioPromptStopPlaying]
    split
    · rfl
    · exact Bool.eq_false_iff.mpr ‹_›
  rw [appTwsCmdSyncMixPromptReqHandler, if_neg haccept]
  simp only [audioPromptStartPlaying, hoff, Bool.false_eq_true, if_false, twsEnableMixPrompt, slave, Bool.not_true]
  have hnear := near_or_past T curr
  by_cases hpast : curr ≥ T
  · simp only [hpast, if_true, decide_eq_true (hnear.mp (.inl hpast)), and_self]
  · by_cases hclose : curr < T ∧ T - curr < promptTicksOffsetToTriggerMix
    · simp only [hpast, hclose, if_false, if_true, and_self, decide_eq_true (hnear.mp (.inr hclose))]
    · have hfar : ¬T < curr + 10 := fun h => (hnear.mpr h).elim hpast hclose
      simp only [hpast, hclose, if_false, decide_eq_false hfar, and_self]

theorem first_le_arrival (c : Scenario) (k : Nat) : c.first ≤ c.arrival k :=
  Nat.le_trans (c.first_le_moment k) (Nat.le_add_right _ _)

theorem peerMoment_succ (c : Scenario) (k j : Nat) : c.peerMoment k (j + 1) = c.peerMoment k j + c.interval := by
  rw [peerMoment, peerMoment, Nat.succ_mul, ← Nat.add_assoc]

theorem arrival_lt_peerMoment (c : Scenario) (k j : Nat) : c.arrival k < c.peerMoment k j := by
  have := c.gap_pos
  rw [peerMoment]
  omega

/-- The peer. -/
theorem peer_in_time_iff (hT : T + c.wrap = c.instant c.requestAt + 2 ^ 28) (hle : 8 * c.interval ≤ T)
    (hok : ¬T + 10 < currTicks (c.arrival c.requestAt)) :
    (∃ t, c.PeerEnabledAt c.requestAt T t ∧ InTime (c.instant c.requestAt) c.interval t) ↔
      c.Near (c.arrival c.requestAt) ∨ ∃ j, c.Near (c.peerMoment c.requestAt j) := by
  have hpos := c.interval_pos
  obtain ⟨hon, hstart, htrigger⟩ := handler_accepts c.peer hok
  have hfirst := c.first_le_arrival c.requestAt
  by_cases hnear : T < currTicks (c.arrival c.requestAt) + 10
  · -- enabled by the request, and then in no playback
    have henabled : (c.replica c.requestAt T 0).isStartMixPrompt = true := hstart.trans (decide_eq_true hnear)
    have hnone : ∀ t, ¬EnabledAt (c.replica c.requestAt T) (c.peerMoment c.requestAt) t := by
      rintro t ⟨j, hbefore, _⟩
      exact Bool.noConfusion (hbefore.symm.trans (started_mono (Nat.zero_le j) henabled))
    constructor
    · rintro ⟨t, ⟨_, rfl⟩ | hplayback, htime⟩
      · rcases Nat.lt_or_ge (c.arrival c.requestAt) c.wrap with hlt | hge
        · exact .inl ((near_iff hT hfirst hlt).mp hnear)
        · exact absurd htime (late_of_wrap hT hle hge hnear)
      · exact absurd hplayback (hnone t)
    · intro hmoment
      have hlt : c.arrival c.requestAt < c.wrap := by
        rcases hmoment with harrival | ⟨j, hj⟩
        · exact harrival.2
        · exact Nat.lt_trans (c.arrival_lt_peerMoment _ j) hj.2
      have hcurr := currTicks_of_lt hfirst hlt
      refine ⟨_, .inl ⟨henabled, rfl⟩, ?_⟩
      simp only [InTime, promptTicksOffsetToTriggerMix]
      omega
  · have hwait : Waiting T (c.replica c.requestAt T 0) := ⟨hon, hstart.trans (decide_eq_false hnear), htrigger⟩
    have hplaybacks := enabled_in_time_iff (appTwsCmdSyncMixPromptReqHandler slave (currTicks (c.arrival c.requestAt)) T c.peer)
      hT hle (rfl : (slave.mobile || slave.slaveIbrt) = true) hwait (c.peerMoment_succ c.requestAt)
      (fun j => Nat.le_trans hfirst (Nat.le_of_lt (c.arrival_lt_peerMoment _ j))) (fun hlt => by
        have hgap := c.gap_le
        have hcurr := currTicks_of_lt hfirst (Nat.lt_trans (c.arrival_lt_peerMoment _ 0) hlt)
        rw [peerMoment, Nat.zero_mul]
        omega)
    have hfar : ¬c.Near (c.arrival c.requestAt) := fun h => hnear ((near_iff hT hfirst h.2).mpr h)
    simp only [PeerEnabledAt, hwait.not_started, Bool.false_eq_true, false_and, false_or, hfar]
    refine hplaybacks.trans ⟨?_, ?_⟩
    · rintro ⟨j, _, hj⟩
      exact ⟨j, hj⟩
    · rintro ⟨j, hj⟩
      exact ⟨j, Nat.zero_le j, hj⟩

/-- Together without a wrap. -/
theorem Requested.together_iff (h : c.Requested c.requestAt interval)
    (hT : trigger c.promptId interval (currTicks (c.moment c.requestAt)) + c.wrap = c.instant c.requestAt + 2 ^ 28)
    (hle : 8 * c.interval ≤ trigger c.promptId interval (currTicks (c.moment c.requestAt))) :
    c.Together c.requestAt (trigger c.promptId interval (currTicks (c.moment c.requestAt))) ↔ c.NoWrap := by
  generalize hgen : trigger c.promptId interval (currTicks (c.moment c.requestAt)) = T at hT hle ⊢
  have hrequester := h.in_time_iff (hgen ▸ hT) (hgen ▸ hle)
  have hagreed : currTicks T = currTicks (c.instant c.requestAt) := by
    simp only [currTicks, wrap, btClock] at hT ⊢
    omega
  have hlate : c.instant c.requestAt + promptTicksOffsetToTriggerMix + btClock < c.wrap + currTicks (c.arrival c.requestAt) ↔
      T + 10 < currTicks (c.arrival c.requestAt) := by
    simp only [promptTicksOffsetToTriggerMix, btClock]
    omega
  rw [Together, NoWrap, hrequester, hlate]
  simp only [hagreed, true_and]
  refine and_congr_right fun _ => ?_
  by_cases hreject : T + 10 < currTicks (c.arrival c.requestAt)
  · -- rejected, and the instant is past
    have hoff : (c.replica c.requestAt T 0).isMixPromptOn = false := handler_rejects hreject
    have hpast : c.instant c.requestAt + promptTicksOffsetToTriggerMix < c.arrival c.requestAt := by
      have hcurr : currTicks (c.arrival c.requestAt) + c.wrap ≤ c.arrival c.requestAt + 2 ^ 28 := by
        rcases Nat.lt_or_ge (c.arrival c.requestAt) c.wrap with hlt | hge
        · exact Nat.le_of_eq (currTicks_of_lt (c.first_le_arrival _) hlt)
        · have := currTicks_of_wrap_le hge
          omega
      simp only [promptTicksOffsetToTriggerMix]
      omega
    simp only [hreject, or_true, iff_true]
    exact .inr ⟨hoff, hpast⟩
  · have hon : (c.replica c.requestAt T 0).isMixPromptOn = true := (handler_accepts _ hreject).1
    simp only [hreject, or_false, hon, true_and, Bool.true_eq_false, false_and, or_false]
    exact peer_in_time_iff hT hle hreject

end Right

/-! ## With a wrap before the request -/

/-- A trigger that the clock does not reach. -/
theorem not_in_time_of_large {T : Nat} (hT : 2 ^ 28 + 9 ≤ T) (hwait : Waiting T (c.requester k)) (t : Nat) :
    ¬EnabledAt c.requester c.moment t := by
  intro henabled
  obtain ⟨j, _, _, hnear, _⟩ := (enabledAt_iff rfl (by omega) hwait).mp henabled
  have hbound : currTicks (c.moment j) < 2 ^ 28 := Nat.mod_lt _ (by decide)
  omega

/-- The trigger with the interval too long is out of reach, or the interval is nearly a clock cycle. -/
theorem trigger_wrong {curr : Nat} (hcurr : curr ≤ c.interval) :
    2 ^ 28 + 9 ≤ trigger c.promptId (c.interval + 15 * 2 ^ 28) curr ∨
      trigger c.promptId (c.interval + 15 * 2 ^ 28) curr + getPromptTriggerDelay c.promptId * (2 ^ 28 - c.interval) = curr := by
  have hlt : c.interval < 2 ^ 28 := c.interval_lt
  rw [trigger]
  rcases delay_cases c.promptId with hdelay | hdelay
  all_goals
    rw [hdelay]
    omega

/-- A second request, with the first trigger 0, is out of reach. -/
theorem Requested.waiting_again (h : c.Requested k (c.interval + 15 * 2 ^ 28))
    (hzero : trigger c.promptId (c.interval + 15 * 2 ^ 28) (currTicks (c.moment k)) = 0)
    (hcurr : currTicks (c.moment k) = getPromptTriggerDelay c.promptId * (2 ^ 28 - c.interval))
    (hnext : currTicks (c.moment (k + 1)) + 2 ^ 28 = currTicks (c.moment k) + c.interval) :
    Waiting (c.interval + 15 * 2 ^ 28) (c.requester (k + 2)) := by
  have hlt : c.interval < 2 ^ 28 := c.interval_lt
  have hmeasuring : c.requester (k + 1) = measuring (c.interval + 15 * 2 ^ 28) (currTicks (c.moment k)) := by
    rw [h.requester_eq, hzero]
    rfl
  have hmeasured := measured_of_gt (c.interval + 15 * 2 ^ 28)
    (by omega : currTicks (c.moment (k + 1)) < currTicks (c.moment k))
  have hagain : currTicks (c.moment (k + 1)) + 2 ^ 32 - currTicks (c.moment k) = c.interval + 15 * 2 ^ 28 := by omega
  rw [hagain] at hmeasured
  have htrigger : trigger c.promptId (c.interval + 15 * 2 ^ 28) (currTicks (c.moment (k + 1))) = c.interval + 15 * 2 ^ 28 := by
    rw [trigger]
    rcases delay_cases c.promptId with hdelay | hdelay
    all_goals
      rw [hdelay] at hcurr ⊢
      omega
  have hpos : 0 < currTicks (c.moment (k + 1)) := by
    rcases delay_cases c.promptId with hdelay | hdelay
    all_goals
      rw [hdelay] at hcurr
      omega
  have hstate : c.requester (k + 2) =
      (playbackPostHandler master c.promptId (currTicks (c.moment (k + 1))) (c.requester (k + 1))).2 := rfl
  rw [hstate, hmeasuring, post_request ⟨by rw [hmeasured]; omega, hpos⟩, hmeasured, htrigger]
  exact ⟨rfl, rfl, rfl⟩

/-- The earbud that sends a request with the wrong interval does not start in time. -/
theorem Requested.not_in_time (h : c.Requested k (c.interval + 15 * 2 ^ 28)) (hcurr : currTicks (c.moment k) ≤ c.interval) (t : Nat)
    (henabled : EnabledAt c.requester c.moment t) : ¬InTime (c.instant k) c.interval t := by
  have hlt : c.interval < 2 ^ 28 := c.interval_lt
  have hpos := h.curr_pos
  rcases trigger_wrong hcurr with hlarge | hsmall
  · exact absurd henabled (not_in_time_of_large hlarge h.waiting t)
  -- the clock is less than a cycle from the trigger on, at the next playback
  have hdelay : 8 * (2 ^ 28 - c.interval) ≤ getPromptTriggerDelay c.promptId * (2 ^ 28 - c.interval) :=
    Nat.mul_le_mul_right _ (by rcases delay_cases c.promptId with hd | hd <;> omega)
  have hnext : currTicks (c.moment (k + 1)) + 2 ^ 28 = currTicks (c.moment k) + c.interval := by
    have := (c.currTicks_next k).2
    omega
  by_cases hzero : trigger c.promptId (c.interval + 15 * 2 ^ 28) (currTicks (c.moment k)) = 0
  · rw [hzero, Nat.zero_add] at hsmall
    exact absurd henabled (not_in_time_of_large (by omega) (h.waiting_again hzero hsmall.symm hnext) t)
  · obtain ⟨j, hkj, rfl, _, hmin⟩ := (enabledAt_iff rfl (Nat.pos_of_ne_zero hzero) h.waiting).mp henabled
    -- so that it is enabled there, long before the instant
    have hj : j = k + 1 := by
      by_contra hne
      exact hmin (k + 1) (Nat.le_refl _) (by omega) (by omega)
    rw [hj, moment_succ, InTime, instant]
    simp only [promptTicksOffsetToTriggerMix]
    rcases delay_cases c.promptId with hd | hd
    all_goals
      rw [hd]
      omega

/-- Both earbuds start together if and only if the clock does not wrap between the first playback
of the prompt and the start. -/
theorem starts_together_iff (c : Scenario) : c.StartsTogether ↔ c.NoWrap := by
  obtain ⟨k, interval, hreq, ⟨rfl, hlt, rfl⟩ | ⟨hwrap, rfl, hcurr⟩⟩ := c.exists_requested
  · obtain ⟨hT, hle⟩ := trigger_right hlt
    rw [hreq.starts_iff]
    exact hreq.together_iff hT hle
  · rw [hreq.starts_iff]
    refine iff_of_false ?_ ?_
    · rintro ⟨_, ⟨t, henabled, htime⟩, _⟩
      exact hreq.not_in_time hcurr t henabled htime
    · rintro ⟨⟨j, hj, _, hlt⟩, _⟩
      have := c.moment_mono (Nat.le_of_lt hj)
      omega

/-- With the instant behind the wrap, the trigger is beyond the clock, and the mixing is never enabled. -/
theorem never_enabled (hk : c.moment c.requestAt < c.wrap) (hinstant : c.wrap + 9 ≤ c.instant c.requestAt) (t : Nat) :
    ¬EnabledAt c.requester c.moment t := by
  obtain ⟨k, interval, hreq, ⟨rfl, hlt, rfl⟩ | ⟨hwrap, _, _⟩⟩ := c.exists_requested
  · obtain ⟨hT, _⟩ := trigger_right hlt
    exact not_in_time_of_large (by omega) hreq.waiting t
  · omega

end Scenario

/-- A request 5000 ticks before the clock wraps, with an interval of 1000. -/
def wrapping : Scenario :=
  { promptId := 0, first := 2 ^ 28 - 5000, interval := 1000, latency := 100, gap := 500, peer := noPrompt
    interval_pos := by decide, interval_lt := by decide, gap_pos := by decide, gap_le := by decide }

/-- Then the mixing is not enabled at all. -/
theorem wraps_before_instant : ¬wrapping.StartsTogether ∧ ∀ t, ¬EnabledAt wrapping.requester wrapping.moment t := by
  have hnever : ∀ t, ¬EnabledAt wrapping.requester wrapping.moment t := by
    apply Scenario.never_enabled
    · decide
    · decide
  refine ⟨?_, hnever⟩
  rintro ⟨k, trigger_time, _, _, _, ⟨t, henabled, _⟩, _⟩
  exact hnever t henabled

/-- The same request long before the wrap. -/
def plain : Scenario := { wrapping with first := 1000 }

theorem plain_starts : plain.StartsTogether := by
  refine plain.starts_together_iff.mpr ⟨⟨13, ?_, ?_⟩, .inr (.inl ⟨12, ?_⟩)⟩
  · decide
  · exact ⟨by decide, by decide⟩
  · exact ⟨by decide, by decide⟩

end BtApp.PromptSync
