import LittleBuddy.Lib.Approach
import LittleBuddy.Lib.DoWhile
import LittleBuddy.Lib.Runs
import Mathlib.Algebra.Group.Nat.Defs
/-!
# Smoothing of the feed-forward gains

`_set_anc_ff_gain` and `anc_tuning_ff_gain_timer_timeout` of
`apps/anc/src/anc_wnr.c` (without `HW_SUPPORT_SMOOOTHING_GAIN`): a call sets the
targets of both channels, and a timer moves the gains towards them. One counter
of the expiries stands for both channels.
-/
open Runs Approach DoWhile

namespace FfGain

/-! ## The code -/

/-- A value for the left and one for the right channel. -/
structure Stereo (α : Type) where
  l : α
  r : α
  deriving DecidableEq

/-- A pair that the timer wrote, the pair before it, and what it was to lead to. -/
structure Write where
  called : Stereo Int
  tgt : Stereo Int
  before : Stereo Int
  written : Stereo Int
  deriving DecidableEq

/-- The variables of the file, the stored gains and whether the timer runs; and for the specification whether there
was a call of `_set_anc_ff_gain`, the gains at the last one and what the timer wrote. -/
structure Sys where
  anc_ff_gain : Stereo Int
  tgt_ff_gain : Stereo Int
  pre_ff_gain : Stereo Int
  delta_ff_gain : Stereo Nat
  timer_cnt : Nat
  ff_smoothing_flag : Bool
  gain : Stereo Int
  armed : Bool
  wasSet : Bool
  called : Stereo Int
  log : List Write

def start (gain : Stereo Int) : Sys where
  anc_ff_gain := ⟨512, 512⟩
  tgt_ff_gain := ⟨0, 0⟩
  pre_ff_gain := ⟨0, 0⟩
  delta_ff_gain := ⟨0, 0⟩
  timer_cnt := 0
  ff_smoothing_flag := false
  gain := gain
  armed := false
  wasSet := false
  called := gain
  log := []

/-- `anc_set_gain` by the timer. -/
def Sys.write (s : Sys) (gain : Stereo Int) : Sys :=
  { s with gain := gain, log := s.log ++ [⟨s.called, s.tgt_ff_gain, s.gain, gain⟩] }

/-- `ff_gain_l` or `ff_gain_r`, which is 0 at first, and `pre_ff_gain_l` or `pre_ff_gain_r`. -/
def stepChannel (pre tgt : Int) : Int × Int :=
  if pre < tgt then (pre + 1, pre + 1) else if pre > tgt then (pre - 1, pre - 1) else (0, pre)

/-- `anc_tuning_ff_gain_timer_timeout`. -/
def timerTimeout (s : Sys) : Sys :=
  let s := { s with timer_cnt := (s.timer_cnt + 1) % 2 ^ 32, armed := false }
  if s.timer_cnt < s.delta_ff_gain.l ∨ s.timer_cnt < s.delta_ff_gain.r then
    let l := stepChannel s.pre_ff_gain.l s.tgt_ff_gain.l
    let r := stepChannel s.pre_ff_gain.r s.tgt_ff_gain.r
    { s.write ⟨l.1, r.1⟩ with pre_ff_gain := ⟨l.2, r.2⟩, armed := true, ff_smoothing_flag := true }
  else { s.write s.tgt_ff_gain with ff_smoothing_flag := false }

/-- `abs(tgt - pre)` of two `int32_t`, compared as unsigned. -/
def delta (tgt pre : Int) : Nat := ((tgt - pre).bmod (2 ^ 32)).natAbs

section Code

variable {Coef : Type} (scale : Int → Coef → Int)

/-- What the coefficient is applied to. -/
def Sys.base (s : Sys) (update_anc_gain : Bool) : Stereo Int :=
  if update_anc_gain && !s.ff_smoothing_flag then s.gain else s.anc_ff_gain

/-- The targets of a call. -/
def Sys.targets (s : Sys) (update_anc_gain : Bool) (gain_coef : Coef) : Stereo Int :=
  ⟨scale (s.base update_anc_gain).l gain_coef, scale (s.base update_anc_gain).r gain_coef⟩

/-- `_set_anc_ff_gain`, with `scale` for the product that is converted to `int32_t`. -/
def setAncFfGain (update_anc_gain : Bool) (gain_coef : Coef) (s : Sys) : Sys :=
  let tgt := s.targets scale update_anc_gain gain_coef
  { s with
    anc_ff_gain := s.base update_anc_gain
    tgt_ff_gain := tgt
    pre_ff_gain := s.gain
    delta_ff_gain := ⟨delta tgt.l s.gain.l, delta tgt.r s.gain.r⟩
    timer_cnt := 0
    armed := true
    wasSet := true
    called := s.gain }

inductive Event (Coef : Type) where
  | set (update_anc_gain : Bool) (gain_coef : Coef)
  | expire

def step : Event Coef → Sys → Option Sys
  | .set update_anc_gain gain_coef, s => some (setAncFfGain scale update_anc_gain gain_coef s)
  | .expire, s => if s.armed then some (timerTimeout s) else none

end Code

/-! ## What it should do -/

/-- Both channels are between the gains at the last call and the targets, and go there by one at most. -/
structure Write.Smooth (w : Write) : Prop where
  between : w.written.l ∈ Set.uIcc w.called.l w.tgt.l ∧ w.written.r ∈ Set.uIcc w.called.r w.tgt.r
  nears : Nears w.tgt.l w.before.l w.written.l ∧ Nears w.tgt.r w.before.r w.written.r

/-- After a call: the timer does not run and the gains are at their targets, or its expiries end so. -/
def Settles (s : Sys) : Prop :=
  if s.armed then
    Ends (fun s => (timerTimeout s, (timerTimeout s).armed)) (fun s s' => s'.tgt_ff_gain = s.tgt_ff_gain)
      (fun s => s.gain = s.tgt_ff_gain) s
  else s.gain = s.tgt_ff_gain

/-- What holds in a state of a run. -/
structure Smoothed (s : Sys) : Prop where
  writes : ∀ w ∈ s.log, w.Smooth
  settles : s.wasSet = true → Settles s

/-- The distances that a call computes do not overflow; and where an expiry does not end the smoothing, a channel that
is already at its target has the target 0. -/
def Level {Coef : Type} (scale : Int → Coef → Int) : Event Coef → Sys → Prop
  | .set update_anc_gain gain_coef, s =>
    ((s.targets scale update_anc_gain gain_coef).l - s.gain.l).natAbs < 2 ^ 31 ∧
      ((s.targets scale update_anc_gain gain_coef).r - s.gain.r).natAbs < 2 ^ 31
  | .expire, s => s.timer_cnt + 1 < s.delta_ff_gain.l ∨ s.timer_cnt + 1 < s.delta_ff_gain.r →
    (s.pre_ff_gain.l = s.tgt_ff_gain.l → s.tgt_ff_gain.l = 0) ∧ (s.pre_ff_gain.r = s.tgt_ff_gain.r → s.tgt_ff_gain.r = 0)

instance {Coef : Type} (scale : Int → Coef → Int) (e : Event Coef) (s : Sys) : Decidable (Level scale e s) :=
  match e with
  | .set update_anc_gain gain_coef => inferInstanceAs (Decidable (
      ((s.targets scale update_anc_gain gain_coef).l - s.gain.l).natAbs < 2 ^ 31 ∧
        ((s.targets scale update_anc_gain gain_coef).r - s.gain.r).natAbs < 2 ^ 31))
  | .expire => inferInstanceAs (Decidable (s.timer_cnt + 1 < s.delta_ff_gain.l ∨ s.timer_cnt + 1 < s.delta_ff_gain.r →
      (s.pre_ff_gain.l = s.tgt_ff_gain.l → s.tgt_ff_gain.l = 0) ∧ (s.pre_ff_gain.r = s.tgt_ff_gain.r → s.tgt_ff_gain.r = 0)))

/-! ## The end of the smoothing -/

section Runs

variable {Coef : Type} {scale : Int → Coef → Int} {s s' : Sys} {tgt pre called : Int} {cnt dist : Nat}

theorem delta_le (tgt pre : Int) : delta tgt pre ≤ 2 ^ 31 := by
  have hlo := Int.le_bmod (x := tgt - pre) (m := 2 ^ 32) (by decide)
  have hhi := Int.bmod_lt (x := tgt - pre) (m := 2 ^ 32) (by decide)
  unfold delta
  omega

theorem delta_eq (h : (tgt - pre).natAbs < 2 ^ 31) : delta tgt pre = (tgt - pre).natAbs := by
  rw [delta, Int.bmod_eq_of_le (by omega) (by omega)]

/-- The counter has not reached the larger distance, and does not wrap. -/
structure Counts (s : Sys) : Prop where
  l : s.delta_ff_gain.l ≤ 2 ^ 31
  r : s.delta_ff_gain.r ≤ 2 ^ 31
  cnt : s.timer_cnt = 0 ∨ s.timer_cnt < s.delta_ff_gain.l ∨ s.timer_cnt < s.delta_ff_gain.r

theorem Counts.next (h : Counts s) : (s.timer_cnt + 1) % 2 ^ 32 = s.timer_cnt + 1 := by
  have hl := h.l
  have hr := h.r
  apply Nat.mod_eq_of_lt
  rcases h.cnt with hzero | hlt | hlt
  · omega
  · omega
  · omega

/-- An expiry that moves the gains on, and the last one. -/
theorem timerTimeout_cases (h : Counts s) :
    (s.timer_cnt + 1 < s.delta_ff_gain.l ∨ s.timer_cnt + 1 < s.delta_ff_gain.r) ∧
        timerTimeout s =
          { s.write ⟨(stepChannel s.pre_ff_gain.l s.tgt_ff_gain.l).1, (stepChannel s.pre_ff_gain.r s.tgt_ff_gain.r).1⟩ with
            timer_cnt := s.timer_cnt + 1
            pre_ff_gain := ⟨(stepChannel s.pre_ff_gain.l s.tgt_ff_gain.l).2, (stepChannel s.pre_ff_gain.r s.tgt_ff_gain.r).2⟩
            armed := true
            ff_smoothing_flag := true } ∨
      (s.delta_ff_gain.l ≤ s.timer_cnt + 1 ∧ s.delta_ff_gain.r ≤ s.timer_cnt + 1) ∧
        timerTimeout s =
          { s.write s.tgt_ff_gain with timer_cnt := s.timer_cnt + 1, armed := false, ff_smoothing_flag := false } := by
  rw [timerTimeout, h.next]
  by_cases hmore : s.timer_cnt + 1 < s.delta_ff_gain.l ∨ s.timer_cnt + 1 < s.delta_ff_gain.r
  · exact .inl ⟨hmore, if_pos hmore⟩
  · exact .inr ⟨by omega, if_neg hmore⟩

theorem Counts.settles (h : Counts s) (hrun : s.armed = true) : Settles s := by
  rw [Settles, if_pos hrun]
  refine Ends.of_variant Counts (fun s => max s.delta_ff_gain.l s.delta_ff_gain.r - s.timer_cnt) ?_ ?_ ?_ h
  · intro s h
    obtain ⟨-, heq⟩ | ⟨-, heq⟩ := timerTimeout_cases h
    · rw [heq]
      rfl
    · rw [heq]
      rfl
  · intro s h hlast
    obtain ⟨-, heq⟩ | ⟨-, heq⟩ := timerTimeout_cases h
    · rw [heq] at hlast
      cases hlast
    · simp only [heq]
      rfl
  · intro s h hagain
    obtain ⟨hmore, heq⟩ | ⟨-, heq⟩ := timerTimeout_cases h
    · simp only [heq]
      refine ⟨⟨h.l, h.r, .inr hmore⟩, ?_⟩
      change max s.delta_ff_gain.l s.delta_ff_gain.r - (s.timer_cnt + 1) < max s.delta_ff_gain.l s.delta_ff_gain.r - s.timer_cnt
      omega
    · rw [heq] at hagain
      cases hagain

/-! ## The channels -/

/-- A channel on its way: `cnt` expiries have brought it that much nearer. -/
structure Way (called tgt pre : Int) (dist cnt : Nat) : Prop where
  between : pre ∈ Set.uIcc called tgt
  left : (tgt - pre).natAbs = dist - cnt

theorem Way.start (h : (tgt - pre).natAbs < 2 ^ 31) : Way pre tgt pre (delta tgt pre) 0 :=
  ⟨Set.left_mem_uIcc, (delta_eq h).symm⟩

theorem Way.toward (h : Way called tgt pre dist cnt) : Way called tgt (toward tgt pre) dist (cnt + 1) := by
  refine ⟨(toward_nears tgt pre).within h.between, ?_⟩
  rw [natAbs_sub_toward, h.left]
  omega

/-- The last expiry goes one step further at most. -/
theorem Way.last (h : Way called tgt pre dist cnt) (hdist : dist ≤ cnt + 1) :
    tgt ∈ Set.uIcc called tgt ∧ Nears tgt pre tgt := by
  have hleft := h.left
  exact ⟨Set.right_mem_uIcc, nears_target (by omega)⟩

theorem stepChannel_eq (h : pre = tgt → tgt = 0) : stepChannel pre tgt = (Approach.toward tgt pre, Approach.toward tgt pre) := by
  rw [stepChannel, Approach.toward]
  by_cases hlt : pre < tgt
  · rw [if_pos hlt, if_pos hlt]
  · by_cases hgt : tgt < pre
    · rw [if_neg hlt, if_pos hgt, if_neg hlt, if_pos hgt]
    · -- the channel gets the 0 of the declaration, which here is where it is
      obtain rfl : pre = tgt := by omega
      rw [if_neg hlt, if_neg hgt, if_neg hlt, if_neg hgt, h rfl]

/-! ## Runs -/

/-- What a run keeps. While the timer runs the gains are those that it moves. -/
structure Keeps (s : Sys) : Prop where
  writes : ∀ w ∈ s.log, w.Smooth
  unset : s.wasSet = false → s.armed = false
  idle : s.wasSet = true → s.armed = false → s.gain = s.tgt_ff_gain
  counts : s.armed = true → Counts s
  gain : s.armed = true → s.pre_ff_gain = s.gain
  l : s.armed = true → Way s.called.l s.tgt_ff_gain.l s.gain.l s.delta_ff_gain.l s.timer_cnt
  r : s.armed = true → Way s.called.r s.tgt_ff_gain.r s.gain.r s.delta_ff_gain.r s.timer_cnt

theorem Keeps.smoothed (h : Keeps s) : Smoothed s := by
  refine ⟨h.writes, ?_⟩
  intro hset
  cases harmed : s.armed with
  | true => exact (h.counts harmed).settles harmed
  | false =>
    rw [Settles, harmed]
    exact h.idle hset harmed

theorem forall_mem_snoc {w : Write} (hwrites : ∀ w ∈ s.log, w.Smooth) (hw : w.Smooth) : ∀ w' ∈ s.log ++ [w], w'.Smooth := by
  intro w' hmem
  rcases List.mem_append.mp hmem with hold | hnew
  · exact hwrites w' hold
  · rw [List.mem_singleton.mp hnew]
    exact hw

theorem Keeps.set (h : Keeps s) {update_anc_gain : Bool} {gain_coef : Coef}
    (hlevel : Level scale (.set update_anc_gain gain_coef) s) : Keeps (setAncFfGain scale update_anc_gain gain_coef s) :=
  ⟨h.writes, fun hunset => (by cases hunset), fun _ hidle => (by cases hidle),
    fun _ => ⟨delta_le _ _, delta_le _ _, .inl rfl⟩, fun _ => rfl, fun _ => .start hlevel.1, fun _ => .start hlevel.2⟩

theorem Keeps.expire (h : Keeps s) (hlevel : Level scale (.expire : Event Coef) s) (hrun : s.armed = true) :
    Keeps (timerTimeout s) := by
  have hset : s.wasSet = true := by
    by_contra hunset
    rw [h.unset (Bool.eq_false_iff.mpr hunset)] at hrun
    cases hrun
  have hl := h.l hrun
  have hr := h.r hrun
  have hcounts := h.counts hrun
  obtain ⟨hmore, heq⟩ | ⟨hlast, heq⟩ := timerTimeout_cases hcounts
  · obtain ⟨hzeroL, hzeroR⟩ := hlevel hmore
    rw [stepChannel_eq hzeroL, stepChannel_eq hzeroR, h.gain hrun] at heq
    rw [heq]
    refine ⟨forall_mem_snoc h.writes ⟨⟨hl.toward.between, hr.toward.between⟩, toward_nears _ _, toward_nears _ _⟩,
      fun hunset => absurd (hset.symm.trans hunset) (by decide), fun _ hidle => (by cases hidle), fun _ => ⟨hcounts.l, hcounts.r, .inr hmore⟩, fun _ => rfl,
      fun _ => hl.toward, fun _ => hr.toward⟩
  · obtain ⟨hinL, hnearL⟩ := hl.last hlast.1
    obtain ⟨hinR, hnearR⟩ := hr.last hlast.2
    rw [heq]
    exact ⟨forall_mem_snoc h.writes ⟨⟨hinL, hinR⟩, hnearL, hnearR⟩, fun _ => rfl, fun _ _ => rfl,
      fun harmed => (by cases harmed), fun harmed => (by cases harmed), fun harmed => (by cases harmed),
      fun harmed => (by cases harmed)⟩

theorem step_keeps {e : Event Coef} (h : Keeps s) (hlevel : Level scale e s) (hstep : step scale e s = some s') : Keeps s' := by
  cases e with
  | set update_anc_gain gain_coef =>
    cases Option.some_inj.mp hstep
    exact h.set hlevel
  | expire =>
    rw [step] at hstep
    split at hstep
    · rename_i hrun
      cases Option.some_inj.mp hstep
      exact h.expire hlevel hrun
    · cases hstep

end Runs

/-- In a run in which no distance overflows, and no channel that has arrived at a target other than 0 has to wait for
the other one, the gains are smoothed. -/
theorem smoothed_of_run {Coef : Type} {scale : Int → Coef → Int} {gain : Stereo Int} {s : Sys} {es : List (Event Coef)}
    (h : Run (step scale) (Level scale) (· = start gain) s es) : Smoothed s := by
  refine (h.inv Keeps ?_ fun e s s' hkeeps hlevel hstep => step_keeps hkeeps hlevel hstep).smoothed
  rintro s rfl
  exact ⟨List.forall_mem_nil _, fun _ => rfl, fun hset => (by cases hset), fun harmed => (by cases harmed),
    fun harmed => (by cases harmed), fun harmed => (by cases harmed), fun harmed => (by cases harmed)⟩

/-- Distances of 2 and 3, and a new target in the middle. -/
theorem smoothed_of_run_twice :
    ∃ s, Run (step (fun gain coef : Int => gain * coef / 4)) (Level fun gain coef : Int => gain * coef / 4)
        (· = start ⟨514, 515⟩) s [.set false 4, .expire, .expire, .set false 4, .expire] ∧
      s.gain = ⟨512, 512⟩ ∧ Smoothed s := by
  obtain ⟨s, hrun, hgood⟩ := exists_run_of_check (step fun gain coef : Int => gain * coef / 4)
    (Level fun gain coef : Int => gain * coef / 4) (· = start ⟨514, 515⟩) (some (start ⟨514, 515⟩))
    [.set false 4, .expire, .expire, .set false 4, .expire] (fun s => decide (s.gain = ⟨512, 512⟩))
    (fun _ h => (Option.some_inj.mp h).symm) (by decide)
  exact ⟨s, hrun, of_decide_eq_true hgood, smoothed_of_run hrun⟩

/-- The left channel is at its target, the right one has to move by two: the first expiry writes 0 for the left one. -/
theorem arrived_gets_zero :
    ∃ s, Run (step (fun gain coef : Int => gain * coef)) (fun _ _ => True) (· = start ⟨512, 514⟩) s [.set false 1, .expire] ∧
      s.gain = ⟨0, 513⟩ ∧ ¬Smoothed s := by
  obtain ⟨s, hrun, hgood⟩ := exists_run_of_check (step fun gain coef : Int => gain * coef) (fun _ _ => True)
    (· = start ⟨512, 514⟩) (some (start ⟨512, 514⟩)) [.set false 1, .expire]
    (fun s => decide (s.gain = ⟨0, 513⟩ ∧ s.log = [⟨⟨512, 514⟩, ⟨512, 512⟩, ⟨512, 514⟩, ⟨0, 513⟩⟩]))
    (fun _ h => (Option.some_inj.mp h).symm) (by decide)
  obtain ⟨hgain, hlog⟩ := of_decide_eq_true hgood
  refine ⟨s, hrun, hgain, ?_⟩
  intro h
  have hsmooth := h.writes _ (hlog ▸ List.mem_singleton_self _)
  exact absurd hsmooth.nears.1.2 (by decide)

end FfGain
