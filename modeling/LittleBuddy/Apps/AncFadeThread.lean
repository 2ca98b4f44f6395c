import LittleBuddy.Apps.AncFade
import LittleBuddy.Lib.Runs
/-!
# The fade thread of ANC

Requests to fade or to change the coefficients set flags of `anc_fade_thread`
(`apps/anc/src/app_anc.c`), which waits for any of them, takes all that are
pending at once and compares them with three constants. The fades take many
steps, and requests may come between any two of them.

`app_anc_select_coef` of the application, in front of a fade-in from the gains 0,
may change the targets as well.
-/
open Runs

namespace AncFade.Thread

/-! ## The code -/

/-- `app_anc_fade_status`. -/
inductive Status where
  | idle
  | fadeIn
  | fadeOut
  deriving DecidableEq

/-- The requests. -/
inductive Request where
  | fadeIn
  | fadeOut
  | change
  deriving DecidableEq

/-- `FADE_IN`, `FADE_OUT` and `CHANGE_FROM_ANC_TO_TT_DIRECTLY`. -/
def Request.flag : Request → Nat
  | .fadeIn => 1
  | .fadeOut => 2
  | .change => 3

/-- Where the thread is: in `osSignalWait`, in one of the loops, before `anc_select_coef`, or before it sets the
status back. -/
inductive Phase where
  | waiting
  | fadingIn
  | fadingOut
  | changingOut
  | selecting
  | changingIn
  | ended
  deriving DecidableEq

/-- The status, the messages `ANC_EVENT_FADE_IN` and `ANC_EVENT_FADE_OUT` that wait, the flags that are pending, the
thread, the gains and their targets; and for the specification the last request. -/
structure Sys where
  app_anc_fade_status : Status
  mailbox : List Request
  pending : Nat
  phase : Phase
  gains : Gains
  cfg : Gains
  last : Option Request

def start (gains cfg : Gains) : Sys := ⟨.idle, [], 0, .waiting, gains, cfg, none⟩

/-- `osSignalSet`. -/
def osSignalSet (flag : Nat) (s : Sys) : Sys := { s with pending := s.pending ||| flag }

/-- `app_anc_gain_fadein` and `app_anc_gain_fadeout`. -/
def appAncGainFadein (s : Sys) : Sys := { s with app_anc_fade_status := .fadeIn, mailbox := s.mailbox ++ [.fadeIn] }

def appAncGainFadeout (s : Sys) : Sys := { s with app_anc_fade_status := .fadeOut, mailbox := s.mailbox ++ [.fadeOut] }

/-- `anc_gain_fade_handle` for a message. A request that a later one has replaced in the status is that one. -/
def ancGainFadeHandle (message : Request) (s : Sys) : Sys :=
  match s.app_anc_fade_status with
  | .fadeOut => { osSignalSet 2 s with last := some .fadeOut }
  | .fadeIn => { osSignalSet 1 s with last := some .fadeIn }
  | .idle => { s with last := some message }

/-- `switch (singles)`. -/
def dispatch (singles : Nat) : Phase :=
  if singles = 1 then .fadingIn else if singles = 2 then .fadingOut else if singles = 3 then .changingOut else .waiting

/-- One step of `while (...);`, and where the thread is behind it. -/
def loopStep (fade : Gains → Gains × Bool) (next : Phase) (s : Sys) : Sys :=
  { s with gains := (fade s.gains).1, phase := if (fade s.gains).2 then s.phase else next }

inductive Event where
  | fadein
  | fadeout
  /-- `app_anc_select_coef` in the application thread. -/
  | select (cfg : Gains)
  /-- The next message. -/
  | handle
  | change
  /-- A step of `anc_fade_thread`; `cfg` is what `anc_select_coef` configures there. -/
  | thread (cfg : Gains)

section Step

variable (fade : Fade)

/-- `anc_fade_thread`, from one point to the next. -/
def threadStep (cfg : Gains) (s : Sys) : Option Sys :=
  match s.phase with
  | .waiting => if s.pending = 0 then none else some { s with pending := 0, phase := dispatch s.pending }
  | .fadingIn => some (loopStep (fade.fadein s.cfg) .ended s)
  | .fadingOut => some (loopStep fade.fadeout .ended s)
  | .changingOut => some (loopStep fade.fadeout .selecting s)
  | .selecting => some { s with cfg := cfg, phase := .changingIn }
  | .changingIn => some (loopStep (fade.fadein s.cfg) .ended s)
  | .ended => some { s with app_anc_fade_status := .idle, phase := .waiting }

/-- One event. The application configures targets only where the gains are or will be 0. -/
def step : Event → Sys → Option Sys
  | .fadein, s => some (appAncGainFadein s)
  | .fadeout, s => some (appAncGainFadeout s)
  | .select cfg, s => if s.last = none ∨ s.last = some .fadeOut then some { s with cfg := cfg } else none
  | .handle, s =>
    match s.mailbox with
    | [] => none
    | message :: mailbox => some (ancGainFadeHandle message { s with mailbox := mailbox })
  | .change, s => some { osSignalSet 3 s with last := some .change }
  | .thread cfg, s => threadStep fade cfg s

end Step

/-! ## What it should do -/

/-- Where the gains should be after a request. -/
def Request.Done (fade : Fade) (s : Sys) : Request → Prop
  | .fadeOut => Arrived fade.types zero s.gains
  | .fadeIn | .change => Arrived fade.types s.cfg s.gains

/-- Where the thread waits and nothing is pending, the last request is done. -/
def Settled (fade : Fade) (s : Sys) : Prop := s.phase = .waiting → s.pending = 0 → ∀ request ∈ s.last, request.Done fade s

/-- When a message is handled the status has not been set back since it was posted; and a fade-out is not requested while
a fade-in or a change is pending. -/
def InOrder : Event → Sys → Prop
  | .handle, s => s.app_anc_fade_status ≠ .idle ∧ (s.app_anc_fade_status = .fadeOut → s.pending = 0 ∨ s.pending = 2)
  | .fadein, _ | .fadeout, _ | .select _, _ | .change, _ | .thread _, _ => True

instance (e : Event) (s : Sys) : Decidable (InOrder e s) :=
  match e with
  | .handle =>
    inferInstanceAs (Decidable (s.app_anc_fade_status ≠ .idle ∧
      (s.app_anc_fade_status = .fadeOut → s.pending = 0 ∨ s.pending = 2)))
  | .fadein | .fadeout | .select _ | .change | .thread _ => isTrue trivial

/-! ## One step -/

section Runs

variable {fade : Fade} {s s' : Sys} {request : Request}

/-- The flags that are pending while a request is, and the points of the thread on its way. -/
def Request.flags : Request → List Nat
  | .fadeOut => [2]
  | .fadeIn | .change => [1, 3]

def Request.way : Request → List Phase
  | .fadeOut => [.fadingOut]
  | .fadeIn | .change => [.fadingIn, .changingOut, .selecting, .changingIn]

/-- A request is pending, or the thread is on its way, or it is done. -/
def Request.Served (fade : Fade) (s : Sys) (request : Request) : Prop :=
  s.pending ∈ request.flags ∨
    s.pending = 0 ∧ (s.phase ∈ request.way ∨ (s.phase = .ended ∨ s.phase = .waiting) ∧ request.Done fade s)

/-- What a run keeps. -/
def Keeps (fade : Fade) (s : Sys) : Prop :=
  match s.last with
  | none => s.pending = 0 ∧ s.phase = .waiting
  | some request => request.Served fade s

theorem Keeps.of_served (hlast : s.last = some request) (h : request.Served fade s) : Keeps fade s := by
  rw [Keeps, hlast]
  exact h

theorem Keeps.pending_lt (h : Keeps fade s) : s.pending < 4 := by
  rw [Keeps] at h
  split at h
  · omega
  · rename_i request _
    rcases h with hflag | ⟨hzero, -⟩
    · cases request with
      | fadeOut =>
        have := List.mem_singleton.mp hflag
        omega
      | fadeIn | change =>
        rcases List.mem_pair.mp hflag with hone | hthree
        · omega
        · omega
    · omega

theorem Keeps.settled (h : Keeps fade s) : Settled fade s := by
  intro hwaiting hnone request hlast
  rw [Keeps, hlast] at h
  rcases h with hflag | ⟨-, hway | ⟨-, hdone⟩⟩
  · rw [hnone] at hflag
    cases request with
    | fadeOut | fadeIn | change => exact absurd hflag (by decide)
  · rw [hwaiting] at hway
    cases request with
    | fadeOut | fadeIn | change => exact absurd hway (by decide)
  · exact hdone

/-- The loops end where all gains have arrived. -/
theorem fadein_ended (cfg gains : Gains) (h : (fade.fadein cfg gains).2 = false) :
    Arrived fade.types cfg (fade.fadein cfg gains).1 := by
  cases fade with
  | single type => exact fadeStep_more.mp h
  | ffFb => exact fadeStep_more.mp h

theorem fadeout_ended (gains : Gains) (h : (fade.fadeout gains).2 = false) : Arrived fade.types zero (fade.fadeout gains).1 := by
  cases fade with
  | single type => exact fadeStep_more.mp h
  | ffFb => exact fadeStep_more.mp h

/-- A step of a loop stays in it, or leaves it where the step returned 0. -/
theorem loopStep_cases (step : Gains → Gains × Bool) (next : Phase) (s : Sys) :
    (loopStep step next s).pending = s.pending ∧ (loopStep step next s).last = s.last ∧
      (loopStep step next s).cfg = s.cfg ∧
      ((loopStep step next s).phase = s.phase ∨
        (step s.gains).2 = false ∧ (loopStep step next s).phase = next ∧ (loopStep step next s).gains = (step s.gains).1) := by
  refine ⟨rfl, rfl, rfl, ?_⟩
  cases hmore : (step s.gains).2 with
  | true => exact .inl (if_pos hmore)
  | false => exact .inr ⟨rfl, if_neg (by rw [hmore]; decide), rfl⟩

/-- A step of a loop on the way to what was requested. -/
theorem loop_served {step : Gains → Gains × Bool} {next : Phase} (h : request.Served fade s)
    (hbusy : s.phase ≠ .ended ∧ s.phase ≠ .waiting)
    (hend : (step s.gains).2 = false → s.phase ∈ request.way →
      next ∈ request.way ∨ next = .ended ∧ request.Done fade (loopStep step next s)) :
    request.Served fade (loopStep step next s) := by
  obtain ⟨hpending, -, -, hphase⟩ := loopStep_cases step next s
  rw [Request.Served, hpending]
  rcases h with hflag | ⟨hnone, hway | ⟨hidle | hidle, -⟩⟩
  · exact .inl hflag
  · refine .inr ⟨hnone, ?_⟩
    rcases hphase with hstays | ⟨hlast, hleaves, -⟩
    · rw [hstays]
      exact .inl hway
    · rw [hleaves]
      rcases hend hlast hway with hnext | ⟨hended, hdone⟩
      · exact .inl hnext
      · exact .inr ⟨.inl hended, hdone⟩
  · exact absurd hidle hbusy.1
  · exact absurd hidle hbusy.2

/-- The flags of a request start its way. -/
theorem dispatch_way {singles : Nat} (h : singles ∈ request.flags) : dispatch singles ∈ request.way := by
  cases request with
  | fadeOut =>
    rw [List.mem_singleton.mp h]
    decide
  | fadeIn | change =>
    rcases List.mem_pair.mp h with rfl | rfl
    · decide
    · decide

theorem thread_served {cfg : Gains} (h : request.Served fade s) (hstep : threadStep fade cfg s = some s') :
    request.Served fade s' := by
  cases hphase : s.phase with
  | waiting =>
    simp only [threadStep, hphase] at hstep
    split at hstep
    · cases hstep
    · rename_i hpending
      cases Option.some_inj.mp hstep
      rcases h with hflag | ⟨hnone, -⟩
      · exact .inr ⟨rfl, .inl (dispatch_way hflag)⟩
      · exact absurd hnone hpending
  | fadingIn | changingIn =>
    simp only [threadStep, hphase] at hstep
    cases Option.some_inj.mp hstep
    refine loop_served h (by rw [hphase]; decide) fun hlast hway => .inr ⟨rfl, ?_⟩
    rw [hphase] at hway
    cases request with
    | fadeOut => exact absurd hway (by decide)
    | fadeIn | change => exact fadein_ended s.cfg s.gains hlast
  | fadingOut =>
    simp only [threadStep, hphase] at hstep
    cases Option.some_inj.mp hstep
    refine loop_served h (by rw [hphase]; decide) fun hlast hway => .inr ⟨rfl, ?_⟩
    rw [hphase] at hway
    cases request with
    | fadeOut => exact fadeout_ended s.gains hlast
    | fadeIn | change => exact absurd hway (by decide)
  | changingOut =>
    simp only [threadStep, hphase] at hstep
    cases Option.some_inj.mp hstep
    refine loop_served h (by rw [hphase]; decide) fun _ hway => .inl ?_
    rw [hphase] at hway
    cases request with
    | fadeOut => exact absurd hway (by decide)
    | fadeIn | change => decide
  | selecting =>
    simp only [threadStep, hphase] at hstep
    cases Option.some_inj.mp hstep
    rcases h with hflag | ⟨hnone, hway | ⟨hidle | hidle, -⟩⟩
    · exact .inl hflag
    · rw [hphase] at hway
      refine .inr ⟨hnone, .inl ?_⟩
      change .changingIn ∈ request.way
      cases request with
      | fadeOut => exact absurd hway (by decide)
      | fadeIn | change => decide
    · rw [hphase] at hidle
      cases hidle
    · rw [hphase] at hidle
      cases hidle
  | ended =>
    simp only [threadStep, hphase] at hstep
    cases Option.some_inj.mp hstep
    rcases h with hflag | ⟨hnone, hway | ⟨-, hdone⟩⟩
    · exact .inl hflag
    · rw [hphase] at hway
      cases request with
      | fadeOut | fadeIn | change => exact absurd hway (by decide)
    · refine .inr ⟨hnone, .inr ⟨.inr rfl, ?_⟩⟩
      cases request with
      | fadeOut | fadeIn | change => exact hdone

theorem threadStep_last {cfg : Gains} (hstep : threadStep fade cfg s = some s') : s'.last = s.last := by
  cases hphase : s.phase with
  | waiting =>
    simp only [threadStep, hphase] at hstep
    split at hstep
    · cases hstep
    · cases Option.some_inj.mp hstep
      rfl
  | fadingIn | fadingOut | changingOut | selecting | changingIn | ended =>
    simp only [threadStep, hphase] at hstep
    cases Option.some_inj.mp hstep
    rfl

theorem lor_flags : ∀ pending < 4, pending ||| 1 ∈ Request.fadeIn.flags ∧ pending ||| 3 ∈ Request.change.flags := by decide

/-- What is neither a flag nor a step of the thread. -/
theorem Keeps.frame (h : Keeps fade s) (hpending : s'.pending = s.pending) (hphase : s'.phase = s.phase)
    (hgains : s'.gains = s.gains) (hlast : s'.last = s.last) (hcfg : s'.cfg = s.cfg ∨ s.last = none ∨ s.last = some .fadeOut) :
    Keeps fade s' := by
  rw [Keeps, hlast]
  rw [Keeps] at h
  cases hrequest : s.last with
  | none =>
    rw [hrequest] at h
    exact ⟨hpending.trans h.1, hphase.trans h.2⟩
  | some request =>
    rw [hrequest] at h hcfg
    have hdone : request.Done fade s → request.Done fade s' := by
      intro hdone
      cases request with
      | fadeOut =>
        rw [Request.Done, hgains]
        exact hdone
      | fadeIn | change =>
        obtain hcfg | hnone | hout := hcfg
        · rw [Request.Done, hgains, hcfg]
          exact hdone
        · cases hnone
        · cases hout
    rcases h with hflag | ⟨hnone, hway | ⟨hidle, harrived⟩⟩
    · exact .inl (hpending ▸ hflag)
    · exact .inr ⟨hpending.trans hnone, .inl (hphase ▸ hway)⟩
    · exact .inr ⟨hpending.trans hnone, .inr ⟨hphase ▸ hidle, hdone harrived⟩⟩

theorem step_keeps {e : Event} (h : Keeps fade s) (horder : InOrder e s) (hstep : step fade e s = some s') : Keeps fade s' := by
  cases e with
  | fadein | fadeout =>
    cases Option.some_inj.mp hstep
    exact h.frame rfl rfl rfl rfl (.inl rfl)
  | select cfg =>
    rw [step] at hstep
    split at hstep
    · rename_i hout
      cases Option.some_inj.mp hstep
      exact h.frame rfl rfl rfl rfl (.inr hout)
    · cases hstep
  | handle =>
    obtain ⟨hbusy, hout⟩ := horder
    have hlt := h.pending_lt
    rw [step] at hstep
    split at hstep
    · cases hstep
    · cases Option.some_inj.mp hstep
      cases hstatus : s.app_anc_fade_status with
      | idle => exact absurd hstatus hbusy
      | fadeIn =>
        simp only [ancGainFadeHandle]
        exact .of_served rfl (.inl (lor_flags _ hlt).1)
      | fadeOut =>
        simp only [ancGainFadeHandle]
        refine @Keeps.of_served _ _ .fadeOut rfl (.inl ?_)
        change s.pending ||| 2 ∈ [2]
        rcases hout hstatus with hzero | htwo
        · rw [hzero]
          decide
        · rw [htwo]
          decide
  | change =>
    cases Option.some_inj.mp hstep
    exact .of_served rfl (.inl (lor_flags _ h.pending_lt).2)
  | thread cfg =>
    have hlast := threadStep_last hstep
    cases hrequest : s.last with
    | none =>
      rw [Keeps, hrequest] at h
      -- the thread waits, and nothing is pending
      have hnone : threadStep fade cfg s = none := by simp only [threadStep, h.2, h.1, if_pos]
      cases hnone.symm.trans hstep
    | some request =>
      rw [Keeps, hrequest] at h
      exact .of_served (hlast.trans hrequest) (thread_served h hstep)

end Runs

/-- In a run in which messages are handled before the status is set back, and a fade-out is not requested while a fade-in
or a change is pending, the thread settles at what the last request asks for. -/
theorem settled_of_run (fade : Fade) {gains cfg : Gains} {s : Sys} {es : List Event}
    (h : Run (step fade) InOrder (· = start gains cfg) s es) : Settled fade s := by
  refine (h.inv (Keeps fade) ?_ fun e s s' hkeeps horder hstep => step_keeps hkeeps horder hstep).settled
  rintro s rfl
  exact ⟨rfl, rfl⟩

/-- A fade-in by one, and a change to the target 0 while it runs. -/
theorem settled_of_run_change :
    ∃ s, Run (step (.single .feedforward)) InOrder (· = start zero fun _ => 1) s
        [.fadein, .handle, .thread zero, .change, .thread zero, .thread zero, .thread zero, .thread zero, .thread zero,
          .thread zero, .thread zero] ∧
      s.phase = .waiting ∧ Settled (.single .feedforward) s := by
  obtain ⟨s, hrun, hgood⟩ := exists_run_of_check (step (.single .feedforward)) InOrder (· = start zero fun _ => 1)
    (some (start zero fun _ => 1))
    [.fadein, .handle, .thread zero, .change, .thread zero, .thread zero, .thread zero, .thread zero, .thread zero,
      .thread zero, .thread zero] (fun s => decide (s.phase = .waiting)) (fun _ h => (Option.some_inj.mp h).symm) (by decide)
  exact ⟨s, hrun, of_decide_eq_true hgood, settled_of_run _ hrun⟩

/-- A fade-in and a fade-out before the thread takes them are a change: the gains stay at 1. -/
theorem fadeout_merged :
    ∃ s, Run (step (.single .feedforward)) (fun _ _ => True) (· = start (fun _ => 1) fun _ => 1) s
        [.fadein, .handle, .fadeout, .handle, .thread zero, .thread zero, .thread fun _ => 1, .thread zero, .thread zero] ∧
      ¬Settled (.single .feedforward) s := by
  obtain ⟨s, hrun, hgood⟩ := exists_run_of_check (step (.single .feedforward)) (fun _ _ => True)
    (· = start (fun _ => 1) fun _ => 1) (some (start (fun _ => 1) fun _ => 1))
    [.fadein, .handle, .fadeout, .handle, .thread zero, .thread zero, .thread fun _ => 1, .thread zero, .thread zero]
    (fun s => decide (s.phase = .waiting ∧ s.pending = 0 ∧ s.last = some .fadeOut ∧ s.gains (.feedforward, .l) = 1))
    (fun _ h => (Option.some_inj.mp h).symm) (by decide)
  obtain ⟨hwaiting, hnone, hlast, hgain⟩ := of_decide_eq_true hgood
  refine ⟨s, hrun, fun hsettled => ?_⟩
  have harrived : s.gains (.feedforward, .l) = 0 := hsettled hwaiting hnone .fadeOut hlast _ (by decide)
  rw [hgain] at harrived
  exact absurd harrived (by decide)

end AncFade.Thread
