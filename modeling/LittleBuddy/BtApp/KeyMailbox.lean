import Mathlib.Data.List.Basic
import Mathlib.Tactic.Common
import LittleBuddy.Lib.Runs
/-!
# The key mailbox of the Bluetooth thread

`services/bt_app/app_keyhandle.cpp` hands the key events to the Bluetooth
thread: `bt_key_send` posts a mail, the mail stores the event in `bt_key`, and
`bt_key_handle` works on it. The thread calls its hooks in their order
(`Besbt_hook_proc`), so one mail is taken before each `bt_key_handle`;
`key_mailbox` says what follows for the events.

The steps of the two threads interleave in any order, and others may post
their own mails. `bt_key_send` returns nothing: it has succeeded when it has
posted its mail. An `ASSERT` that fails is no step.
-/
open Runs

namespace BtApp.Key

/-! ## The code -/

/-- `enum APP_KEY_CODE_T`: no key, the power key, and 15 function keys. -/
inductive AppKeyCode where
  | none
  | pwr
  | fn (n : Fin 15)
  deriving DecidableEq

/-- The values of the codes. -/
def AppKeyCode.value : AppKeyCode → UInt32
  | none => 0
  | pwr => (1 : UInt32) <<< 0
  | fn n => (1 : UInt32) <<< UInt32.ofNat (n + 1)

/-- `APP_KEY_STATUS`, as the key thread has it. -/
structure AppKeyStatus where
  code : AppKeyCode
  event : UInt8
  deriving DecidableEq

/-- A mail to the Bluetooth thread: `bt_update_key_event` with its parameters, or
a request of another kind. -/
inductive Mail where
  | updateKeyEvent (param0 param1 : UInt32)
  | other

/-- `APP_BT_MAILBOX_MAX`. -/
abbrev appBtMailboxMax : Nat := 40

/-- Where the key thread is in `bt_key_send`: outside of it, or behind the check. -/
inductive KeyPc where
  | idle
  | free (status : AppKeyStatus)

/-- Where the Bluetooth thread is. -/
inductive BtPc where
  /-- In front of `bt_key_init`, -/
  | init
  /-- in front of `app_bt_mail_poll`, -/
  | poll
  /-- in another request, -/
  | request
  /-- in front of the two assignments of `bt_update_key_event`, -/
  | updateCode (code : UInt32) (event : UInt8)
  | updateEvent (event : UInt8)
  /-- in front of `bt_key_handle`, -/
  | handle
  /-- and behind the handler of the key. -/
  | clear
  deriving DecidableEq

/-- The two threads, their mailbox and `bt_key`. `accepted` and `handled` are the
events that were posted and that went to their handler. -/
structure State where
  keyPc : KeyPc
  btPc : BtPc
  mailbox : List Mail
  code : UInt32
  event : UInt8
  accepted : List (UInt32 × UInt8)
  handled : List (UInt32 × UInt8)

/-- The state at power-on, where `bt_key` is zero. -/
def start : State := ⟨.idle, .init, [], 0, 0, [], []⟩

/-- The mails that are allocated: the one at work is freed behind its function. -/
def State.mails (s : State) : Nat :=
  s.mailbox.length +
    match s.btPc with
    | .request | .updateCode _ _ | .updateEvent _ => 1
    | .init | .poll | .handle | .clear => 0

/-- A step: the two of `bt_key_send` in the key thread, another request, and
those of the Bluetooth thread, of which `poll` is `app_bt_mail_poll`. -/
inductive Step where
  | send (status : AppKeyStatus)
  | post
  | postOther
  | poll
  | bt
  deriving DecidableEq

/-- `Mail`'s work, which `app_bt_mail_poll` starts. -/
def Mail.pc : Mail → BtPc
  | updateKeyEvent param0 param1 => .updateCode param0 param1.toUInt8
  | other => .request

/-- A step of the Bluetooth thread. -/
def btStep (s : State) : State :=
  match s.btPc with
  | .init => { s with code := 0xff, event := 0xff, btPc := .poll }
  | .poll =>
    match s.mailbox with
    | [] => { s with btPc := .handle }
    | mail :: rest => { s with mailbox := rest, btPc := mail.pc }
  | .request => { s with btPc := .handle }
  | .updateCode code event => { s with code := code, btPc := .updateEvent event }
  | .updateEvent event => { s with event := event, btPc := .handle }
  | .handle =>
    if s.code ≠ 0xff then { s with handled := s.handled ++ [(s.code, s.event)], btPc := .clear }
    else { s with btPc := .poll }
  | .clear => { s with code := 0xff, btPc := .poll }

/-- The system. -/
def step : Step → State → Option State
  | .send status, s =>
    match s.keyPc with
    | .idle => if 0xff ≠ s.code then some s else some { s with keyPc := .free status }
    | .free _ => none
  | .post, s =>
    match s.keyPc with
    | .idle => none
    | .free status =>
      if s.mails < appBtMailboxMax then
        some { s with
          mailbox := s.mailbox ++ [.updateKeyEvent status.code.value status.event.toUInt32]
          keyPc := .idle
          accepted := s.accepted ++ [(status.code.value, status.event)] }
      else none
  | .postOther, s => if s.mails < appBtMailboxMax then some { s with mailbox := s.mailbox ++ [.other] } else none
  | .poll, s => if s.btPc = .poll then some (btStep s) else none
  | .bt, s => if s.btPc = .poll then none else some (btStep s)

/-- The runs of the system. -/
abbrev SystemRun := Run step (fun _ _ => True) (· = start)

/-! ## The events on their way -/

/-- The event of a mail. -/
def Mail.events : Mail → List (UInt32 × UInt8)
  | updateKeyEvent param0 param1 => [(param0, param1.toUInt8)]
  | other => []

/-- The events in a list of mails. -/
def inMails (mails : List Mail) : List (UInt32 × UInt8) := mails.flatMap Mail.events

/-- The event that has left the mailbox and is not handled. -/
def State.current (s : State) : List (UInt32 × UInt8) :=
  match s.btPc with
  | .updateCode code event => [(code, event)]
  | .updateEvent event => [(s.code, event)]
  | .handle => if s.code ≠ 0xff then [(s.code, s.event)] else []
  | .init | .poll | .request | .clear => []

/-- `bt_key` is free when a mail is taken, and no event is 0xff. -/
structure Inv (s : State) : Prop where
  way : s.accepted = s.handled ++ s.current ++ inMails s.mailbox
  codes : ∀ e ∈ s.current ++ inMails s.mailbox, e.1 ≠ 0xff
  free : s.btPc = .poll ∨ s.btPc = .request → s.code = 0xff

theorem AppKeyCode.value_ne (c : AppKeyCode) : c.value ≠ 0xff := by
  rcases c with _ | _ | n
  · decide
  · decide
  · revert n
    decide

variable {s s' s₀ : State} {e : Step} {evs : List Step}

@[simp] theorem inMails_append (l l' : List Mail) : inMails (l ++ l') = inMails l ++ inMails l' := List.flatMap_append

@[simp] theorem inMails_cons (m : Mail) (l : List Mail) : inMails (m :: l) = m.events ++ inMails l := List.flatMap_cons

@[simp] theorem toUInt8_toUInt32 (b : UInt8) : b.toUInt32.toUInt8 = b := by simp

theorem start_inv : Inv start := ⟨rfl, nofun, by rintro (h | h) <;> cases h⟩

/-- A mail that is taken brings its event; after that the event stays until it
goes to its handler. -/
theorem btStep_way (hs : Inv s) :
    (s.btPc ≠ .poll → (btStep s).mailbox = s.mailbox ∧
      (((btStep s).handled = s.handled ∧ (btStep s).current = s.current) ∨
        ((btStep s).handled = s.handled ++ s.current ∧ (btStep s).current = []))) ∧
    (s.btPc = .poll → (btStep s).handled = s.handled ∧ s.current = [] ∧
      (btStep s).current ++ inMails (btStep s).mailbox = inMails s.mailbox) := by
  cases hpc : s.btPc with
  | poll =>
    refine ⟨fun h => absurd rfl h, fun _ => ?_⟩
    have hcode := hs.free (Or.inl hpc)
    cases hm : s.mailbox with
    | nil => simp [btStep, hpc, hm, State.current, hcode]
    | cons mail rest => cases mail <;> simp [btStep, hpc, hm, State.current, Mail.pc, Mail.events]
  | init => simp [btStep, hpc, State.current]
  | request =>
    have hcode := hs.free (Or.inr hpc)
    simp [btStep, hpc, State.current, hcode]
  | updateCode code event => simp [btStep, hpc, State.current]
  | updateEvent event =>
    have hcode : s.code ≠ 0xff := hs.codes (s.code, event) (by simp [State.current, hpc])
    simp [btStep, hpc, State.current, hcode]
  | handle => by_cases hcode : s.code = 0xff <;> simp [btStep, hpc, State.current, hcode]
  | clear => simp [btStep, hpc, State.current]

theorem btStep_free (hs : Inv s) (h : (btStep s).btPc = .poll ∨ (btStep s).btPc = .request) :
    (btStep s).code = 0xff := by
  cases hpc : s.btPc with
  | poll =>
    have hcode := hs.free (Or.inl hpc)
    cases hm : s.mailbox <;> simpa [btStep, hpc, hm] using hcode
  | handle =>
    by_cases hcode : s.code = 0xff
    · simp [btStep, hpc, hcode]
    · simp [btStep, hpc, hcode] at h
  | init => simp [btStep, hpc]
  | clear => simp [btStep, hpc]
  | request | updateCode code event | updateEvent event => simp [btStep, hpc] at h

theorem btStep_accepted : (btStep s).accepted = s.accepted := by
  unfold btStep
  split <;> (try split) <;> rfl

theorem btStep_inv (hs : Inv s) : Inv (btStep s) := by
  obtain ⟨hwork, hpoll⟩ := btStep_way hs
  by_cases hpc : s.btPc = .poll
  · obtain ⟨hh, hc, hm⟩ := hpoll hpc
    refine ⟨?_, ?_, btStep_free hs⟩
    · rw [btStep_accepted, hs.way, hh, hc, List.append_nil, List.append_assoc, hm]
    · rw [hm]
      have hcodes := hs.codes
      rwa [hc] at hcodes
  · obtain ⟨hm, h | h⟩ := hwork hpc
    · refine ⟨?_, ?_, btStep_free hs⟩
      · rw [btStep_accepted, hs.way, h.1, h.2, hm]
      · rw [h.2, hm]
        exact hs.codes
    · refine ⟨?_, ?_, btStep_free hs⟩
      · rw [btStep_accepted, hs.way, h.1, h.2, hm, List.append_nil]
      · rw [h.2, hm]
        exact fun ev hev => hs.codes ev (List.mem_append_right _ hev)

/-- A step is one of the Bluetooth thread, or it posts a mail or does nothing to the events. -/
theorem step_cases (h : step e s = some s') : ((e = .poll ↔ s.btPc = .poll) ∧ s' = btStep s) ∨
    e ≠ .poll ∧ s'.btPc = s.btPc ∧ s'.code = s.code ∧ s'.event = s.event ∧ s'.handled = s.handled ∧
      ∃ new, s'.mailbox = s.mailbox ++ new ∧ s'.accepted = s.accepted ++ inMails new ∧ ∀ ev ∈ inMails new, ev.1 ≠ 0xff := by
  cases e with
  | poll =>
    simp only [step] at h
    split_ifs at h with hpc
    exact Or.inl ⟨iff_of_true rfl hpc, (Option.some.inj h).symm⟩
  | bt =>
    simp only [step] at h
    split_ifs at h with hpc
    exact Or.inl ⟨iff_of_false nofun hpc, (Option.some.inj h).symm⟩
  | send status =>
    right
    simp only [step] at h
    split at h
    · split_ifs at h <;> obtain rfl := Option.some.inj h <;>
        exact ⟨nofun, rfl, rfl, rfl, rfl, [], by simp, by simp [inMails], nofun⟩
    · cases h
  | post =>
    right
    simp only [step] at h
    split at h
    · cases h
    · split_ifs at h
      obtain rfl := Option.some.inj h
      refine ⟨nofun, rfl, rfl, rfl, rfl, [_], rfl, by simp [inMails, Mail.events], ?_⟩
      simp only [inMails, List.flatMap_cons, List.flatMap_nil, Mail.events, List.append_nil, List.mem_singleton]
      rintro ev rfl
      exact AppKeyCode.value_ne _
  | postOther =>
    right
    simp only [step] at h
    split_ifs at h
    obtain rfl := Option.some.inj h
    exact ⟨nofun, rfl, rfl, rfl, rfl, [.other], rfl, by simp [inMails, Mail.events], by simp [inMails, Mail.events]⟩

theorem current_eq (hpc : s'.btPc = s.btPc) (hcode : s'.code = s.code) (hevent : s'.event = s.event) :
    s'.current = s.current := by
  unfold State.current
  rw [hpc, hcode, hevent]

theorem step_inv (hs : Inv s) (h : step e s = some s') : Inv s' := by
  rcases step_cases h with ⟨-, rfl⟩ | ⟨-, hpc, hcode, hevent, hh, new, hm, hacc, hnew⟩
  · exact btStep_inv hs
  · have hcur := current_eq hpc hcode hevent
    refine ⟨?_, ?_, by rw [hpc, hcode]; exact hs.free⟩
    · rw [hacc, hs.way, hh, hcur, hm, inMails_append, List.append_assoc _ _ (inMails new)]
    · rw [hcur, hm, inMails_append, ← List.append_assoc]
      intro ev hev
      rcases List.mem_append.1 hev with hev | hev
      · exact hs.codes ev hev
      · exact hnew ev hev

theorem run_inv (h : SystemRun s evs) : Inv s := by
  refine h.inv Inv ?_ ?_
  · rintro _ rfl
    exact start_inv
  · exact fun _ _ _ hs _ ht => step_inv hs ht

/-! ## How long it takes -/

/-- The events accepted up to `s₀` are handled, or, `n` polls later, the mails
that are left of those in its mailbox are as many as the polls leave. -/
def Progress (s₀ s : State) (n : Nat) : Prop :=
  s₀.accepted <+: s.handled ∨ ∃ old new, s.mailbox = old ++ new ∧ n + old.length ≤ s₀.mailbox.length ∧
    s₀.accepted = s.handled ++ s.current ++ inMails old

theorem handled_mono (hs : Inv s) (h : step e s = some s') : s.handled <+: s'.handled := by
  rcases step_cases h with ⟨-, rfl⟩ | ⟨-, -, -, -, hh, -⟩
  · obtain ⟨hwork, hpoll⟩ := btStep_way hs
    by_cases hpc : s.btPc = .poll
    · exact (hpoll hpc).1 ▸ List.prefix_rfl
    · rcases (hwork hpc).2 with h | h
      · exact h.1 ▸ List.prefix_rfl
      · exact h.1 ▸ List.prefix_append ..
  · exact hh ▸ List.prefix_rfl

theorem progress_step {n : Nat} (hs : Inv s) (hp : Progress s₀ s n) (h : step e s = some s') :
    Progress s₀ s' (n + [e].count .poll) := by
  rcases hp with hp | ⟨old, new, hm, hn, hacc⟩
  · exact Or.inl (hp.trans (handled_mono hs h))
  rcases step_cases h with ⟨he, rfl⟩ | ⟨he, hpc, hcode, hevent, hh, new', hm', -⟩
  · obtain ⟨hwork, hpoll⟩ := btStep_way hs
    by_cases hpc : s.btPc = .poll
    · obtain ⟨hh, hc, -⟩ := hpoll hpc
      obtain rfl := he.2 hpc
      cases old with
      | nil =>
        -- no old mail is left, and no event is at work
        left
        rw [hacc, hh, hc]
        simp [inMails]
      | cons mail old =>
        right
        have hstep : btStep s = { s with mailbox := old ++ new, btPc := mail.pc } := by
          simp [btStep, hpc, hm]
        have hcur : (btStep s).current = mail.events := by
          rw [hstep]
          cases mail <;> rfl
        refine ⟨old, new, by rw [hstep], ?_, ?_⟩
        · simp only [List.length_cons] at hn
          simp only [List.count_singleton_self]
          omega
        · rw [hacc, hh, hc, hcur, inMails_cons, List.append_nil, List.append_assoc]
    · rw [List.count_singleton, if_neg (by simpa using mt he.1 hpc)]
      obtain ⟨hm', h | h⟩ := hwork hpc
      · exact Or.inr ⟨old, new, hm'.trans hm, hn, by rw [hacc, h.1, h.2]⟩
      · exact Or.inr ⟨old, new, hm'.trans hm, hn, by rw [hacc, h.1, h.2, List.append_nil]⟩
  · rw [List.count_singleton, if_neg (by simpa using he)]
    refine Or.inr ⟨old, new ++ new', by rw [hm', hm, List.append_assoc], hn, ?_⟩
    rw [hacc, hh, current_eq hpc hcode hevent]

theorem run_progress (hs : Inv s₀) (h : Run step (fun _ _ => True) (· = s₀) s evs) :
    Inv s ∧ Progress s₀ s (evs.count .poll) := by
  induction h with
  | nil h =>
    subst h
    exact ⟨hs, Or.inr ⟨_, [], (List.append_nil _).symm, by simp, hs.way⟩⟩
  | snoc _ _ ht ih =>
    rw [List.count_append]
    exact ⟨step_inv ih.1 ht, progress_step ih.1 ih.2 ht⟩

/-- The Bluetooth thread can always go on. -/
theorem bt_enabled (s : State) : (step .poll s).isSome ∨ (step .bt s).isSome := by
  by_cases hpc : s.btPc = .poll <;> simp [step, hpc]

/-- In every run the accepted events are those that went to their handler, the
one at work and those in the mailbox, in the order of sending; and whatever
happens next, when the thread has polled more often than there are mails, all of
them went to their handler. -/
theorem key_mailbox (s : State) (evs : List Step) (h : SystemRun s evs) :
    s.accepted = s.handled ++ s.current ++ inMails s.mailbox ∧
    ∀ s' evs', Run step (fun _ _ => True) (· = s) s' evs' → s.mailbox.length < evs'.count .poll →
      s.accepted <+: s'.handled := by
  have hs := run_inv h
  refine ⟨hs.way, ?_⟩
  intro s' evs' h' hpolls
  rcases (run_progress hs h').2 with hp | ⟨old, new, -, hn, -⟩
  · exact hp
  · omega

/-- Two events that are sent before the first one is taken. -/
def twoSends : List Step :=
  [.bt, .send ⟨.pwr, 5⟩, .post, .send ⟨.fn 0, 5⟩, .post]

/-- The state in which both wait. -/
def bothWait : State :=
  ⟨.idle, .poll, [.updateKeyEvent 1 5, .updateKeyEvent 2 5], 0xff, 0xff, [(1, 5), (2, 5)], []⟩

theorem key_mailbox_two : bothWait.accepted = [] ++ [] ++ [(1, 5), (2, 5)] ∧
    ∀ s' evs', Run step (fun _ _ => True) (· = bothWait) s' evs' → 2 < evs'.count .poll →
      bothWait.accepted <+: s'.handled :=
  key_mailbox bothWait twoSends <| by
    have hrun : SystemRun start [] := .nil rfl
    exact ((((hrun.snoc trivial rfl).snoc trivial rfl).snoc trivial rfl).snoc trivial rfl).snoc trivial rfl

end BtApp.Key
