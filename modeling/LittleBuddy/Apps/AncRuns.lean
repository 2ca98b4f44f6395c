import LittleBuddy.Apps.Anc
import Mathlib.Data.List.Chain
/-!
# Opening and closing ANC

`finish` handles the current message to its end. In a run in which no request is
handled between the expiry of the closing timer and the delivery of its message,
a finished state is in one of few phases, and in each of them the work status,
the timer and the queued messages agree on whether ANC is open.
-/
open Runs

namespace Anc

/-- ANC was opened last. -/
def Opened (s : Sys) : Prop := s.calls.getLast? = some .openAnc

/-- ANC is opened and closed in turns, and the status is `ON` only while it is
open. When no message is being handled, the status is `OFF` exactly when ANC is
closed, and it waits only while a message is queued or the timer is armed. -/
structure Lawful (s : Sys) : Prop where
  in_turns : s.calls.IsChain (· ≠ ·) ∧ s.calls.head? ≠ some .closeAnc
  on_open : s.anc_work_status = .on → Opened s
  off_iff : s.running = [] → (s.anc_work_status = .off ↔ ¬ Opened s)
  settled : s.running = [] → s.mailbox = [] → s.armed = false →
    s.anc_work_status ≠ .waitingOn ∧ s.anc_work_status ≠ .waitingOff

/-- An operation that leaves the timer and the mailbox alone. -/
def Op.keepsTimer : Op → Bool
  | .setStatus _ | .call _ => true
  | _ => false

/-- No request is handled in `INIT_ON` while the message of the closing timer is
queued, and the timer does not expire while the handling of a message has still
to set or stop it or to post a message. Its request may be cleared already. -/
def InTime (e : Event) (s : Sys) : Prop :=
  match e with
  | .deliver => ∀ status, s.mailbox.head? = some (.changeStatus status) → s.anc_work_status = .initOn →
      .closeCodec ∉ s.mailbox
  | .expire => (∀ op ∈ s.running, op.keepsTimer = true) ∨ s.running = [.stopTimer] ∧ s.anc_timer_request = .none
  | _ => True

/-! ## The handling of a message -/

/-- The state in which the current message is handled. -/
def finish (s : Sys) : Sys := s.running.foldl Op.exec { s with running := [] }

@[simp] def Message.isAnswer : Message → Bool
  | .changeStatus _ => false
  | _ => true

/-- The messages that are not requests. -/
def answers (mailbox : List Message) : List Message := mailbox.filter Message.isAnswer

@[simp] theorem answers_nil : answers [] = [] := rfl

@[simp] theorem answers_cons (m : Message) (l : List Message) :
    answers (m :: l) = if m.isAnswer = true then m :: answers l else answers l := List.filter_cons ..

@[simp] theorem answers_append (l l' : List Message) : answers (l ++ l') = answers l ++ answers l' := List.filter_append ..

/-- The request of the timer, if it is armed. -/
def timer (s : Sys) : Option Request := if s.armed then some s.anc_timer_request else none

/-- The phases of a state in which no message is being handled: the status, the
timer, the messages that are queued, and whether ANC is open. -/
inductive Phase : Status → Option Request → List Message → Bool → Prop
  | off : Phase .off none [] false
  | opening : Phase .waitingOn (some .open) [] true
  | fadingIn : Phase .waitingOn none [.fadeIn] true
  | on : Phase .on none [] true
  | fadingOut : Phase .waitingOff (some .close) [.fadeOut] true
  | fadingOutLate : Phase .waitingOff none [.fadeOut, .closeCodec] true
  | initOn : Phase .initOn (some .close) [] true
  | closing : Phase .initOn none [.closeCodec] true

/-- Calls in turns, of which the last one opened ANC or not. -/
structure InTurns (calls : List Call) (is_open : Bool) : Prop where
  chain : calls.IsChain (· ≠ ·)
  first : calls.head? ≠ some .closeAnc
  last : calls.getLast? = some .openAnc ↔ is_open = true

structure InPhase (s : Sys) : Prop where
  timerid : s.anc_timerid = true
  phase : ∃ is_open, Phase s.anc_work_status (timer s) (answers s.mailbox) is_open ∧ InTurns s.calls is_open

theorem InTurns.opened {calls : List Call} (h : InTurns calls false) : InTurns (calls ++ [.openAnc]) true := by
  have hlast : ∀ c ∈ calls.getLast?, c ≠ Call.openAnc := by
    intro c hc he
    subst he
    exact absurd (h.last.1 hc) Bool.false_ne_true
  refine ⟨?_, ?_, by simp⟩
  · rw [List.isChain_append]
    refine ⟨h.chain, List.isChain_singleton _, fun x hx y hy => ?_⟩
    obtain rfl : Call.openAnc = y := by simpa using hy
    exact hlast x hx
  · cases calls with
    | nil => simp
    | cons c calls => exact h.first

theorem InTurns.closed {calls : List Call} (h : InTurns calls true) : InTurns (calls ++ [.closeAnc]) false := by
  have hlast := h.last.2 rfl
  refine ⟨?_, ?_, by simp⟩
  · rw [List.isChain_append]
    refine ⟨h.chain, List.isChain_singleton _, fun x hx y hy => ?_⟩
    rw [hlast] at hx
    cases hx
    obtain rfl : Call.closeAnc = y := by simpa using hy
    decide
  · cases calls with
    | nil => cases hlast
    | cons c calls => exact h.first

/-! ## Steps -/

theorem exec_running (op : Op) (s : Sys) (running : List Op) :
    { op.exec s with running } = op.exec { s with running } := by
  cases op <;> rfl

/-- Doing the next operation changes nothing about the end. -/
theorem finish_exec {s : Sys} {op : Op} {running : List Op} (h : s.running = op :: running) :
    finish (op.exec { s with running }) = finish s := by
  have hrun : (op.exec { s with running }).running = running := by cases op <;> rfl
  rw [finish, finish, h, hrun, exec_running, List.foldl_cons]

theorem finish_of_nil {s : Sys} (h : s.running = []) : finish s = s := by
  rw [finish, h, List.foldl_nil, ← h]

/-- States that differ in the coefficients and in the queued requests only. -/
structure Same (s t : Sys) : Prop where
  timerid : s.anc_timerid = t.anc_timerid
  status : s.anc_work_status = t.anc_work_status
  request : s.anc_timer_request = t.anc_timer_request
  armed : s.armed = t.armed
  answers : answers s.mailbox = answers t.mailbox
  running : s.running = t.running
  calls : s.calls = t.calls

theorem Same.exec {s t : Sys} (h : Same s t) (op : Op) : Same (op.exec s) (op.exec t) := by
  cases op with
  | post m => exact { h with answers := by simp [Op.exec, appMailboxPut, h.answers] }
  | call c => exact { h with calls := congrArg (· ++ [c]) h.calls }
  | setStatus _ => exact { h with status := rfl }
  | setRequest _ => exact { h with request := rfl }
  | stopTimer | startTimer => exact { h with armed := rfl }

theorem Same.finish {s t : Sys} (h : Same s t) : Same (finish s) (finish t) := by
  have hfold : ∀ (ops : List Op) (s t : Sys), Same s t → Same (ops.foldl Op.exec s) (ops.foldl Op.exec t) := by
    intro ops
    induction ops with
    | nil => exact fun s t h => h
    | cons op ops ih => exact fun s t h => ih _ _ (h.exec op)
  unfold Anc.finish
  rw [h.running]
  exact hfold _ _ _ { h with running := rfl }

theorem InPhase.congr {s t : Sys} (h : InPhase t) (hs : Same s t) : InPhase s := by
  obtain ⟨htimerid, is_open, hphase, hturns⟩ := h
  refine ⟨hs.timerid.trans htimerid, is_open, ?_, hs.calls ▸ hturns⟩
  rw [timer, hs.status, hs.armed, hs.request, hs.answers]
  exact hphase

theorem same_post (status : Bool) (s : Sys) (anc_coef_idx : Nat) :
    Same (appAncStatusPost status { s with anc_coef_idx }) s := by
  exact ⟨rfl, rfl, rfl, rfl, by simp [appAncStatusPost, appMailboxPut], rfl, rfl⟩

/-- A request leaves the phase alone. -/
theorem InPhase.of_same {s t : Sys} (h : InPhase (finish s)) (hs : Same t s) : InPhase (finish t) := h.congr hs.finish

/-- The timer may expire before or after operations that leave it alone. -/
theorem handler_exec (s : Sys) {op : Op} (h : op.keepsTimer = true) :
    op.exec (ancGainFadeTimerHandler s) = ancGainFadeTimerHandler (op.exec s) ∧ (op.exec s).armed = s.armed := by
  cases op with
  | setStatus _ | call _ =>
    refine ⟨?_, rfl⟩
    obtain ⟨_, request, _⟩ := s
    cases request <;> rfl
  | setRequest _ | stopTimer | startTimer | post _ => cases h

/-- An expiry after its request was cleared, before the timer is stopped. -/
theorem handler_stop {s : Sys} (hrunning : s.running = [.stopTimer]) (hrequest : s.anc_timer_request = .none) :
    finish (ancGainFadeTimerHandler s) = finish s := by
  obtain ⟨status, request, timerid, armed, idx, mailbox, running, calls⟩ := s
  dsimp only at hrunning hrequest
  subst hrunning hrequest
  rfl

theorem handler_finish {s : Sys} (h : ∀ op ∈ s.running, op.keepsTimer = true) :
    finish (ancGainFadeTimerHandler s) = ancGainFadeTimerHandler (finish s) ∧ (finish s).armed = s.armed := by
  have hfold : ∀ (ops : List Op) (s : Sys), (∀ op ∈ ops, op.keepsTimer = true) →
      ops.foldl Op.exec (ancGainFadeTimerHandler s) = ancGainFadeTimerHandler (ops.foldl Op.exec s) ∧
        (ops.foldl Op.exec s).armed = s.armed := by
    intro ops
    induction ops with
    | nil => exact fun s _ => ⟨rfl, rfl⟩
    | cons op ops ih =>
      intro s hops
      obtain ⟨hexec, harmed⟩ := handler_exec s (hops op (by simp))
      obtain ⟨hih, harmed'⟩ := ih (op.exec s) fun op' hop' => hops op' (by simp [hop'])
      rw [List.foldl_cons, List.foldl_cons, hexec, hih, harmed', harmed]
      exact ⟨rfl, rfl⟩
  have hrunning : (ancGainFadeTimerHandler s).running = s.running := by
    obtain ⟨_, request, _⟩ := s
    cases request <;> rfl
  have hcurrent : { ancGainFadeTimerHandler s with running := [] } = ancGainFadeTimerHandler { s with running := [] } := by
    obtain ⟨_, request, _⟩ := s
    cases request <;> rfl
  unfold finish
  rw [hrunning, hcurrent]
  exact hfold s.running { s with running := [] } h

theorem InPhase.expire {s : Sys} (h : InPhase s) (harmed : s.armed = true) : InPhase (ancGainFadeTimerHandler s) := by
  obtain ⟨htimerid, is_open, hphase, hturns⟩ := h
  obtain ⟨status, request, timerid, armed, idx, mailbox, running, calls⟩ := s
  dsimp only at harmed hphase hturns htimerid
  subst harmed htimerid
  simp only [timer, if_true] at hphase
  generalize hmail : answers mailbox = queued at hphase
  refine ⟨?_, true, ?_⟩
  · cases request <;> rfl
  · cases hphase with
    | opening => exact ⟨by simpa [ancGainFadeTimerHandler, appMailboxPut, timer, hmail] using Phase.fadingIn, hturns⟩
    | fadingOut => exact ⟨by simpa [ancGainFadeTimerHandler, appMailboxPut, timer, hmail] using Phase.fadingOutLate, hturns⟩
    | initOn => exact ⟨by simpa [ancGainFadeTimerHandler, appMailboxPut, timer, hmail] using Phase.closing, hturns⟩

/-- A request that is not handled in `INIT_ON` behind the expiry of the closing timer. -/
theorem InPhase.change {s : Sys} (h : InPhase s) (hrunning : s.running = [])
    (hin : s.anc_work_status = .initOn → .closeCodec ∉ answers s.mailbox) (cfg : Config) :
    InPhase (finish (appAncStatusChange cfg s)) := by
  have hsame := h
  obtain ⟨htimerid, is_open, hphase, hturns⟩ := h
  obtain ⟨status, request, timerid, armed, idx, mailbox, running, calls⟩ := s
  dsimp only at hrunning hin hphase hturns htimerid
  subst hrunning htimerid
  generalize htimer : timer _ = request' at hphase
  generalize hmail : answers mailbox = queued at hphase hin
  cases hphase with
  | off =>
    refine ⟨rfl, true, ?_, hturns.opened⟩
    simpa [appAncStatusChange, appAncTimerSet, finish, Op.exec, timer, hmail] using Phase.opening
  | on =>
    have hclose : ∀ idx, InPhase (finish ⟨.on, request, true, armed, idx, mailbox,
        appAncTimerSet true .close ++ [.post .fadeOut, .setStatus .waitingOff], calls⟩) := by
      intro idx
      refine ⟨rfl, true, ?_, hturns⟩
      simpa [appAncTimerSet, finish, Op.exec, appMailboxPut, timer, hmail] using Phase.fadingOut
    simp only [timer] at htimer
    -- with several coefficients a request may only move on to the next ones
    have hstay : ∀ idx, InPhase (finish ⟨.on, request, true, armed, idx, mailbox, [], calls⟩) := by
      intro idx
      refine ⟨rfl, true, ?_, hturns⟩
      change Phase .on (if armed then some request else none) (answers mailbox) true
      rw [htimer, hmail]
      exact Phase.on
    unfold appAncStatusChange
    dsimp only
    by_cases hlist : cfg.coefListNum > 1
    · rw [if_pos hlist]
      by_cases hidx : (if cfg.btAncKey then idx + 1 else idx) < cfg.coefListNum
      · rw [if_pos hidx]
        exact hstay _
      · rw [if_neg hidx]
        exact hclose 0
    · rw [if_neg hlist]
      exact hclose 0
  | initOn =>
    refine ⟨rfl, true, ?_, hturns⟩
    simpa [appAncStatusChange, appAncTimerClose, finish, Op.exec, appMailboxPut, timer, hmail] using Phase.fadingIn
  | closing => exact absurd (List.mem_singleton_self _) (hin rfl)
  | opening | fadingIn | fadingOut | fadingOutLate => exact hsame

theorem InPhase.handle {s : Sys} (h : InPhase s) (hrunning : s.running = []) {m : Message} {mailbox : List Message}
    (hmail : s.mailbox = m :: mailbox)
    (hin : ∀ status, m = .changeStatus status → s.anc_work_status = .initOn → .closeCodec ∉ s.mailbox) (cfg : Config) :
    InPhase (finish (appAncHandleProcess cfg { s with mailbox } m)) := by
  by_cases hm : m.isAnswer = true
  · obtain ⟨htimerid, is_open, hphase, hturns⟩ := h
    obtain ⟨status, request, timerid, armed, idx, _, running, calls⟩ := s
    dsimp only at hrunning hmail hphase hturns htimerid
    subst hrunning hmail htimerid
    rw [answers_cons, if_pos hm] at hphase
    generalize htimer : timer _ = request' at hphase
    generalize hqueued : answers mailbox = queued at hphase
    simp only [timer] at htimer
    cases hphase with
    | fadingIn =>
      refine ⟨rfl, true, ?_, hturns⟩
      change Phase .on (if armed then some request else none) (answers mailbox) true
      rw [htimer, hqueued]
      exact Phase.on
    | fadingOut =>
      refine ⟨rfl, true, ?_, hturns⟩
      change Phase .initOn (if armed then some request else none) (answers mailbox) true
      rw [htimer, hqueued]
      exact Phase.initOn
    | fadingOutLate =>
      refine ⟨rfl, true, ?_, hturns⟩
      change Phase .initOn (if armed then some request else none) (answers mailbox) true
      rw [htimer, hqueued]
      exact Phase.closing
    | closing =>
      refine ⟨rfl, false, ?_, hturns.closed⟩
      change Phase .off (if armed then some request else none) (answers mailbox) false
      rw [htimer, hqueued]
      exact Phase.off
  · cases m with
    | changeStatus status =>
      have hphase : InPhase { s with mailbox } := by
        refine h.congr ⟨rfl, rfl, rfl, rfl, ?_, rfl, rfl⟩
        simp [hmail]
      refine hphase.change hrunning (fun hstatus hmem => ?_) cfg
      refine hin status rfl hstatus ?_
      rw [hmail]
      exact List.mem_cons_of_mem _ (List.mem_of_mem_filter hmem)
    | init | fadeIn | fadeOut | closeCodec => exact absurd rfl hm

/-! ## Runs -/

/-- Before the first message is handled. -/
structure Before (s : Sys) : Prop where
  timerid : s.anc_timerid = false
  status : s.anc_work_status = .off
  armed : s.armed = false
  running : s.running = []
  calls : s.calls = []
  first : ∃ mailbox, s.mailbox = .init :: mailbox ∧ answers mailbox = []

/-- The status is or becomes `ON` only while ANC is open and stays so. -/
def OnOpen (s : Sys) : Prop :=
  s.anc_work_status = .on ∨ .setStatus .on ∈ s.running → Opened s ∧ .call .closeAnc ∉ s.running

structure Inv (s : Sys) : Prop where
  phase : Before s ∨ InPhase (finish s)
  on_open : OnOpen s

theorem Before.init_handled {s : Sys} (h : Before s) {m : Message} {mailbox : List Message}
    (hmail : s.mailbox = m :: mailbox) (cfg : Config) :
    InPhase (finish (appAncHandleProcess cfg { s with mailbox } m)) := by
  obtain ⟨mailbox', hmail', hanswers⟩ := h.first
  obtain ⟨rfl, rfl⟩ := List.cons.inj (hmail.symm.trans hmail')
  obtain ⟨status, request, timerid, armed, idx, _, running, calls⟩ := s
  obtain ⟨htimerid, hstatus, harmed, hrunning, hcalls, -⟩ := h
  dsimp only at htimerid hstatus harmed hrunning hcalls
  subst htimerid hstatus harmed hrunning hcalls
  have hturns : InTurns [] false := ⟨List.isChain_nil, by simp, by simp⟩
  by_cases hinit : cfg.initOn = true
  · refine ⟨?_, true, ?_, ?_⟩
    · simp [appAncHandleProcess, hinit, appAncTimerSet, finish, Op.exec]
    · simpa [appAncHandleProcess, hinit, appAncTimerSet, finish, Op.exec, timer, hanswers] using Phase.initOn
    · simpa [appAncHandleProcess, hinit, appAncTimerSet, finish, Op.exec] using hturns.opened
  · refine ⟨?_, false, ?_, ?_⟩
    · simp [appAncHandleProcess, hinit, finish, Op.exec]
    · simpa [appAncHandleProcess, hinit, finish, Op.exec, timer, hanswers] using Phase.off
    · simpa [appAncHandleProcess, hinit, finish, Op.exec] using hturns

theorem OnOpen.exec {s : Sys} {op : Op} {running : List Op} (h : OnOpen s) (hrunning : s.running = op :: running) :
    OnOpen (op.exec { s with running }) := by
  rw [OnOpen, hrunning] at h
  cases op with
  | setStatus status =>
    rintro (rfl | hmem)
    · exact (h (.inr List.mem_cons_self)).imp id fun hclose hmem => hclose (List.mem_cons_of_mem _ hmem)
    · exact (h (.inr (List.mem_cons_of_mem _ hmem))).imp id fun hclose hmem => hclose (List.mem_cons_of_mem _ hmem)
  | call c =>
    intro hon
    obtain ⟨-, hclose⟩ := h (hon.imp id (List.mem_cons_of_mem _))
    cases c with
    | openAnc => exact ⟨by simp [Opened, Op.exec], fun hmem => hclose (List.mem_cons_of_mem _ hmem)⟩
    | closeAnc => exact absurd List.mem_cons_self hclose
  | setRequest _ | stopTimer | startTimer | post _ =>
    intro hon
    exact (h (hon.imp id (List.mem_cons_of_mem _))).imp id fun hclose hmem => hclose (List.mem_cons_of_mem _ hmem)

theorem Before.onOpen {s : Sys} (h : Before s) (cfg : Config) (mailbox : List Message) :
    OnOpen (appAncHandleProcess cfg { s with mailbox } .init) := by
  rintro (hon | hmem)
  · exact absurd (h.status.symm.trans hon) (by decide)
  · simp only [appAncHandleProcess] at hmem
    split_ifs at hmem <;> simp [appAncTimerSet] at hmem

theorem change_calls (cfg : Config) (s : Sys) : (appAncStatusChange cfg s).calls = s.calls := by
  unfold appAncStatusChange
  dsimp only
  split
  · rfl
  · split_ifs <;> rfl
  · rfl
  · rfl

theorem change_running (cfg : Config) {s : Sys} (h : s.running = []) :
    .call .closeAnc ∉ (appAncStatusChange cfg s).running := by
  unfold appAncStatusChange
  split
  · simp only [appAncTimerSet]
    split_ifs <;> simp
  · simp only [appAncTimerSet]
    split_ifs <;> simp [h]
  · simp only [appAncTimerClose]
    split_ifs <;> simp
  · simp [h]

theorem InPhase.onOpen {s : Sys} (h : InPhase s) (hrunning : s.running = []) {m : Message} {mailbox : List Message}
    (hmail : s.mailbox = m :: mailbox) (cfg : Config) : OnOpen (appAncHandleProcess cfg { s with mailbox } m) := by
  obtain ⟨htimerid, is_open, hphase, hturns⟩ := h
  obtain ⟨status, request, timerid, armed, idx, _, running, calls⟩ := s
  dsimp only at hrunning hmail hphase hturns htimerid
  subst hrunning hmail htimerid
  have hopened : is_open = true → calls.getLast? = some .openAnc := hturns.last.2
  by_cases hm : m.isAnswer = true
  · rw [answers_cons, if_pos hm] at hphase
    generalize timer _ = request' at hphase
    generalize answers mailbox = queued at hphase
    cases hphase with
    | fadingIn => exact fun _ => ⟨hopened rfl, by simp [appAncHandleProcess]⟩
    | fadingOut | fadingOutLate | closing => simp [OnOpen, appAncHandleProcess]
  · cases m with
    | changeStatus _ =>
      generalize timer _ = request' at hphase
      generalize answers _ = queued at hphase
      cases hphase with
      | on =>
        refine fun _ => ⟨?_, ?_⟩
        · rw [Opened, appAncHandleProcess, change_calls]
          exact hopened rfl
        · exact change_running cfg rfl
      | off | opening | fadingIn | fadingOut | fadingOutLate | initOn | closing =>
        simp [OnOpen, appAncHandleProcess, appAncStatusChange, appAncTimerSet, appAncTimerClose]
    | init | fadeIn | fadeOut | closeCodec => exact absurd rfl hm

/-- A request is dropped or queued. -/
inductive Requested (s : Sys) : Sys → Prop
  | dropped : Requested s s
  | queued (status : Bool) (anc_coef_idx : Nat) : Requested s (appAncStatusPost status { s with anc_coef_idx })

/-- What a step can do. -/
theorem step_cases {cfg : Config} {s s' : Sys} {e : Event} (h : step cfg e s = some s') :
    Requested s s' ∨
    (e = .deliver ∧ s.running = [] ∧
      ∃ m mailbox, s.mailbox = m :: mailbox ∧ s' = appAncHandleProcess cfg { s with mailbox } m) ∨
    (∃ op running, s.running = op :: running ∧ s' = op.exec { s with running }) ∨
    (e = .expire ∧ s.armed = true ∧ s' = ancGainFadeTimerHandler s) := by
  cases e with
  | post status =>
    cases h
    exact .inl (.queued status s.anc_coef_idx)
  | key =>
    simp only [step] at h
    split_ifs at h
    cases h
    exact .inl (.queued _ s.anc_coef_idx)
  | start =>
    simp only [step, appAncStart] at h
    split_ifs at h <;> cases h
    · exact .inl .dropped
    · exact .inl (.queued _ 0)
  | switchCoef index =>
    simp only [step, appAncSwitchCoef] at h
    split_ifs at h <;> cases h
    · exact .inl .dropped
    · exact .inl .dropped
    · exact .inl (.queued _ index)
  | stop =>
    simp only [step, appAncStop] at h
    split_ifs at h <;> cases h
    · exact .inl .dropped
    · exact .inl (.queued _ cfg.coefNum)
  | deliver =>
    simp only [step] at h
    split at h
    · rename_i m mailbox hrunning hmail
      cases h
      exact .inr (.inl ⟨rfl, hrunning, m, mailbox, hmail, rfl⟩)
    · cases h
  | exec =>
    simp only [step] at h
    split at h
    · rename_i op running hrunning
      cases h
      exact .inr (.inr (.inl ⟨op, running, hrunning, rfl⟩))
    · cases h
  | expire =>
    simp only [step] at h
    split_ifs at h with harmed
    cases h
    exact .inr (.inr (.inr ⟨rfl, harmed, rfl⟩))

theorem Inv.request {s s' : Sys} (h : Inv s) (hs : Requested s s') : Inv s' := by
  cases hs with
  | dropped => exact h
  | queued status idx =>
    refine ⟨h.phase.imp (fun hbefore => ?_) fun hphase => hphase.of_same (same_post status s idx), h.on_open⟩
    obtain ⟨mailbox, hmail, hanswers⟩ := hbefore.first
    refine { hbefore with first := ⟨mailbox ++ [.changeStatus status], ?_, ?_⟩ }
    · simp [appAncStatusPost, appMailboxPut, hmail]
    · simp [hanswers]

theorem Inv.expire {s : Sys} (h : Inv s) (hin : InTime .expire s) (harmed : s.armed = true) :
    Inv (ancGainFadeTimerHandler s) := by
  have hon : OnOpen (ancGainFadeTimerHandler s) := by
    obtain ⟨status, request, timerid, armed, idx, mailbox, running, calls⟩ := s
    cases request <;> exact h.on_open
  obtain hbefore | hphase := h.phase
  · exact absurd (hbefore.armed.symm.trans harmed) (by decide)
  · refine ⟨.inr ?_, hon⟩
    obtain hkeeps | ⟨hrunning, hrequest⟩ := hin
    · obtain ⟨hfinish, harmed'⟩ := handler_finish hkeeps
      rw [hfinish]
      exact hphase.expire (harmed'.trans harmed)
    · rw [handler_stop hrunning hrequest]
      exact hphase

/-- The step lemma. -/
theorem Inv.step {cfg : Config} {s s' : Sys} {e : Event} (h : Inv s) (hin : InTime e s) (hs : step cfg e s = some s') :
    Inv s' := by
  obtain hs | ⟨rfl, hrunning, m, mailbox, hmail, rfl⟩ | ⟨op, running, hrunning, rfl⟩ | ⟨rfl, harmed, rfl⟩ := step_cases hs
  · exact h.request hs
  · obtain hbefore | hphase := h.phase
    · refine ⟨.inr (hbefore.init_handled hmail cfg), ?_⟩
      obtain ⟨_, hmail', -⟩ := hbefore.first
      obtain ⟨rfl, rfl⟩ := List.cons.inj (hmail.symm.trans hmail')
      exact hbefore.onOpen cfg mailbox
    · rw [finish_of_nil hrunning] at hphase
      refine ⟨.inr (hphase.handle hrunning hmail (fun status hm => ?_) cfg), hphase.onOpen hrunning hmail cfg⟩
      subst hm
      exact hin status (by rw [hmail]; rfl)
  · refine ⟨.inr ?_, h.on_open.exec hrunning⟩
    rw [finish_exec hrunning]
    exact h.phase.resolve_left fun hbefore => List.cons_ne_nil _ _ (hrunning.symm.trans hbefore.running)
  · exact h.expire hin harmed

theorem inv_init : Inv init :=
  ⟨.inl ⟨rfl, rfl, rfl, rfl, rfl, [], rfl, rfl⟩, fun hon => hon.elim nofun nofun⟩

/-- The calls made so far are the first of those made when the handling ends. -/
theorem finish_calls (s : Sys) : ∃ later, (finish s).calls = s.calls ++ later := by
  have hfold : ∀ (ops : List Op) (s : Sys), ∃ later, (ops.foldl Op.exec s).calls = s.calls ++ later := by
    intro ops
    induction ops with
    | nil => exact fun s => ⟨[], (List.append_nil _).symm⟩
    | cons op ops ih =>
      intro s
      obtain ⟨later, hlater⟩ := ih (op.exec s)
      cases op with
      | call c =>
        refine ⟨c :: later, ?_⟩
        rw [List.foldl_cons, hlater]
        exact List.append_assoc ..
      | setStatus _ | setRequest _ | stopTimer | startTimer | post _ => exact ⟨later, hlater⟩
  exact hfold s.running { s with running := [] }

theorem InPhase.off_iff {s : Sys} (h : InPhase s) : s.anc_work_status = .off ↔ ¬ Opened s := by
  obtain ⟨-, is_open, hphase, hturns⟩ := h
  rw [Opened, hturns.last]
  generalize s.anc_work_status = status at hphase ⊢
  generalize timer s = request at hphase
  generalize answers s.mailbox = queued at hphase
  cases hphase with
  | off => simp
  | opening | fadingIn | on | fadingOut | fadingOutLate | initOn | closing => simp

/-- Whoever waits for a message has it queued or the timer armed. -/
theorem InPhase.settled {s : Sys} (h : InPhase s) (hmail : s.mailbox = []) (harmed : s.armed = false) :
    s.anc_work_status ≠ .waitingOn ∧ s.anc_work_status ≠ .waitingOff := by
  obtain ⟨-, is_open, hphase, -⟩ := h
  have htimer : timer s = none := by simp [timer, harmed]
  rw [hmail, htimer, answers_nil] at hphase
  generalize s.anc_work_status = status at hphase ⊢
  cases hphase with
  | off | on => exact ⟨nofun, nofun⟩

theorem Inv.lawful {s : Sys} (h : Inv s) : Lawful s := by
  obtain ⟨hphase | hphase, hon⟩ := h
  · have hopened : ¬ Opened s := by simp [Opened, hphase.calls]
    refine ⟨by simp [hphase.calls], fun hstatus => (hon (.inl hstatus)).1, fun _ => iff_of_true hphase.status hopened, ?_⟩
    rw [hphase.status]
    exact fun _ _ _ => ⟨nofun, nofun⟩
  · obtain ⟨-, is_open, -, hturns⟩ := id hphase
    obtain ⟨later, hlater⟩ := finish_calls s
    rw [hlater] at hturns
    refine ⟨⟨hturns.chain.left_of_append, fun hclose => hturns.first ?_⟩, fun hstatus => (hon (.inl hstatus)).1,
      fun hrunning => ?_, fun hrunning => ?_⟩
    · rw [List.head?_append, hclose, Option.some_or]
    · rw [finish_of_nil hrunning] at hphase
      exact hphase.off_iff
    · rw [finish_of_nil hrunning] at hphase
      exact hphase.settled

instance (e : Event) (s : Sys) : Decidable (InTime e s) :=
  match e with
  | .deliver =>
    inferInstanceAs (Decidable (∀ status : Bool, s.mailbox.head? = some (.changeStatus status) →
      s.anc_work_status = .initOn → .closeCodec ∉ s.mailbox))
  | .expire => inferInstanceAs (Decidable (_ ∨ _))
  | .post _ | .key | .start | .switchCoef _ | .stop | .exec => .isTrue trivial

/-- In every run in time the work status agrees with ANC. -/
theorem status_agrees {cfg : Config} {s : Sys} {evs : List Event} (h : Run (step cfg) InTime (· = init) s evs) : Lawful s :=
  (h.inv Inv (by rintro _ rfl; exact inv_init) fun _ _ _ hinv hin hs => hinv.step hin hs).lawful

/-- Opened by the key, closed by it, and closed by the timer. -/
theorem status_agrees_key : ∃ s evs, Run (step ⟨true, false, 1, 1⟩) InTime (· = init) s evs ∧
    s.calls = [.openAnc, .closeAnc] ∧ Lawful s := by
  obtain ⟨s, hrun, hgood⟩ := exists_run_of_check (step ⟨true, false, 1, 1⟩) InTime (· = init) (some init)
    ([.deliver, .exec, .key, .deliver, .exec, .exec, .exec, .exec, .exec, .expire, .deliver, .exec] ++
      [.key, .deliver, .exec, .exec, .exec, .exec, .exec, .deliver, .exec, .expire, .deliver, .exec, .exec])
    (fun s => s.calls = [.openAnc, .closeAnc]) (fun _ h => (Option.some_inj.mp h).symm) (by decide +kernel)
  exact ⟨s, _, hrun, of_decide_eq_true hgood, status_agrees hrun⟩

/-- The key while the message of the closing timer is queued: ANC is closed with status `ON`. -/
theorem on_while_closed : ∃ s evs, Run (step ⟨true, false, 1, 1⟩) (fun _ _ => True) (· = init) s evs ∧
    (s.anc_work_status = .on ∧ s.calls = [.openAnc, .closeAnc]) ∧ ¬ Lawful s := by
  obtain ⟨s, hrun, hgood⟩ := exists_run_of_check (step ⟨true, false, 1, 1⟩) (fun _ _ => True) (· = init) (some init)
    ([.deliver, .exec, .key, .deliver, .exec, .exec, .exec, .exec, .exec, .expire, .deliver, .exec] ++
      [.key, .deliver, .exec, .exec, .exec, .exec, .exec, .deliver, .exec, .key, .expire] ++
      [.deliver, .exec, .exec, .exec, .exec, .deliver, .exec, .exec, .deliver, .exec])
    (fun s => s.anc_work_status = .on ∧ s.calls = [.openAnc, .closeAnc]) (fun _ h => (Option.some_inj.mp h).symm)
    (by decide +kernel)
  have hbad : s.anc_work_status = .on ∧ s.calls = [.openAnc, .closeAnc] := of_decide_eq_true hgood
  refine ⟨s, _, hrun, hbad, fun h => ?_⟩
  have hopened := h.on_open hbad.1
  rw [Opened, hbad.2] at hopened
  cases hopened

end Anc
