import LittleBuddy.Lib.Devices
import LittleBuddy.Lib.Runs
import Mathlib.Algebra.Group.Nat.Defs
import Mathlib.Logic.Function.Basic
import Mathlib.Tactic.Common
/-!
# The voice detector

`apps/voice_detector`: an event makes the application thread put an array of
commands into a queue and execute the queue. The commands open, start, stop and
close the VAD and the capture stream. Which array it is depends on the last command
that was executed. Interrupts of the VAD post events.

The capture stream is set up, so that no command fails.
-/
open Runs Devices

namespace VoiceDetector

/-! ## The code -/

/-- `enum voice_detector_cmd`, and `enum voice_detector_state`, which has the same values. -/
inductive Cmd where
  | idle
  | exit
  | vadOpen
  | vadStart
  | vadStop
  | vadClose
  | audCapStart
  | audCapStop
  | audCapOpen
  | audCapClose
  | sysClk32k
  | sysClk26m
  | sysClk52m
  | sysClk104m
  deriving DecidableEq

/-- The events of `enum voice_detector_evt` that are posted. -/
inductive Evt where
  | vadStart
  | audCapStart
  | close
  deriving DecidableEq

/-- `CMD_QUEUE_DATA_SIZE`. -/
def cmdQueueDataSize : Nat := 15

/-- `struct command_queue`. -/
structure CommandQueue where
  idx : Int
  out : Int
  data : Int → Cmd

/-- `cmd_queue_enqueue`; `none` for -2. -/
def cmdQueueEnqueue (q : CommandQueue) (c : Cmd) : Option CommandQueue :=
  if q.idx ≥ cmdQueueDataSize then none
  else
    let idx := if q.idx < 0 then 0 else q.idx
    some { q with data := Function.update q.data idx c, idx := idx + 1 }

/-- `cmd_queue_dequeue`; `none` for -2. -/
def cmdQueueDequeue (q : CommandQueue) : Option (Cmd × CommandQueue) :=
  if q.idx < 0 then none
  else
    let out := if q.out < 0 then 0 else q.out
    some (q.data out, if out + 1 ≥ q.idx then { q with out := -1, idx := -1 } else { q with out := out + 1 })

/-- `cmd_queue_is_empty`. -/
def cmdQueueIsEmpty (q : CommandQueue) : Bool := q.idx < 0

/-- The loop of `voice_detector_send_cmd_array`: what is queued, and whether all of it is. -/
def sendCmdArray (q : CommandQueue) : List Cmd → CommandQueue × Bool
  | [] => (q, true)
  | c :: cmds =>
    match cmdQueueEnqueue q c with
    | none => (q, false)
    | some q => sendCmdArray q cmds

/-- `struct voice_detector_dev`, the mailbox and the event whose commands are being executed; and for the
specification the commands of the arrays that were accepted, and those that were executed. -/
structure Sys where
  init : Bool
  state : Cmd
  wakeup_cnt : Nat
  cmd_queue : CommandQueue
  mailbox : List Evt
  running : Option Evt
  accepted : List Cmd
  executed : List Cmd

/-- After `app_voice_detector_open`. -/
def opened : Sys := ⟨true, .idle, 0, ⟨-1, -1, fun _ => .idle⟩, [], none, [], []⟩

/-- The array that `app_voice_detector_process` chooses. -/
def cmdArray (state : Cmd) : Evt → List Cmd
  | .vadStart =>
    if state = .vadClose then [.audCapStop, .audCapClose, .vadOpen, .vadStart, .sysClk32k]
    else [.vadOpen, .vadStart, .sysClk32k]
  | .audCapStart => [.audCapOpen, .audCapStart, .vadStop, .vadClose]
  | .close => if state = .vadClose then [.audCapStop, .audCapClose, .exit] else [.vadStop, .vadClose, .exit]

/-- `app_voice_detector_process` up to the loop of `voice_detector_run`, which is not entered when the detector is
not open. -/
def process (evt : Evt) (s : Sys) : Sys :=
  let cmds := cmdArray s.state evt
  let sent := sendCmdArray s.cmd_queue cmds
  { s with
    cmd_queue := sent.1
    accepted := if sent.2 then s.accepted ++ cmds else s.accepted
    running := if s.init then some evt else none }

/-- `voice_detector_set_status`. -/
def setStatus (cmd : Cmd) (state : Cmd) : Cmd :=
  match cmd with
  | .sysClk104m | .sysClk52m | .sysClk26m | .sysClk32k => state
  | _ => cmd

/-- `voice_detector_process_cmd` and the status; `voice_detector_vad_start` clears the counter. -/
def processCmd (cmd : Cmd) (s : Sys) : Sys :=
  { s with
    wakeup_cnt := if cmd = .vadStart then 0 else s.wakeup_cnt
    state := setStatus cmd s.state
    executed := s.executed ++ [cmd] }

/-- Behind the last command: `voice_detector_close` for a close event. -/
def finish (evt : Evt) (s : Sys) : Sys := { s with running := none, init := if evt = .close then false else s.init }

/-- A round of the loop of `voice_detector_run`. -/
def runStep (evt : Evt) (s : Sys) : Sys :=
  let s := match cmdQueueDequeue s.cmd_queue with
    | none => s
    | some (cmd, q) => processCmd cmd { s with cmd_queue := q }
  if cmdQueueIsEmpty s.cmd_queue then finish evt s else s

/-- `voice_detector_vad_callback` with `voice_detector_wakeup_system` or `voice_not_detector_wakeup_system`. -/
def vadCallback (found : Bool) (s : Sys) : Sys :=
  let s := { s with wakeup_cnt := (s.wakeup_cnt + 1) % 2 ^ 32 }
  if s.wakeup_cnt = 1 ∧ s.state = .vadStart then
    { s with mailbox := s.mailbox ++ [if found then .audCapStart else .vadStart] }
  else s

inductive Event where
  | post (evt : Evt)
  | take
  | exec
  | interrupt (found : Bool)

def step : Event → Sys → Option Sys
  | .post evt, s => some { s with mailbox := s.mailbox ++ [evt] }
  | .take, s =>
    match s.running, s.mailbox with
    | none, evt :: mailbox => some (process evt { s with mailbox := mailbox })
    | _, _ => none
  | .exec, s => s.running.map fun evt => runStep evt s
  | .interrupt found, s => some (vadCallback found s)

/-! ## What it should do -/

inductive Device where
  | vad
  | cap
  deriving DecidableEq

/-- What a command does to a device. -/
def Cmd.op : Device → Cmd → Option Op
  | .vad, .vadOpen => some .opens
  | .vad, .vadStart => some .starts
  | .vad, .vadStop => some .stops
  | .vad, .vadClose => some .closes
  | .cap, .audCapOpen => some .opens
  | .cap, .audCapStart => some .starts
  | .cap, .audCapStop => some .stops
  | .cap, .audCapClose => some .closes
  | _, _ => none

/-- The mode of a device behind some commands, if it allows them. -/
def mode (d : Device) (cmds : List Cmd) : Option Mode := replay (cmds.filterMap (Cmd.op d)) .closed

/-- The commands so far obey the protocol of both devices; what was accepted is executed in order, and completely when
an event has been processed; and behind a close event both are closed. -/
structure Obeys (s : Sys) : Prop where
  protocol : ∀ d, (mode d s.executed).isSome
  order : s.executed <+: s.accepted
  complete : s.running = none → s.executed = s.accepted
  closed : s.init = false → ∀ d, mode d s.executed = some .closed

/-- Whether the detector takes an event where it stands: a start of the VAD at first or while the capture runs, a start
of the capture while the VAD runs, and a close event while one of them does. -/
def expected (init : Bool) (state : Cmd) : Evt → Bool
  | .vadStart => init && (state == .idle || state == .vadClose)
  | .audCapStart => init && state == .vadStart
  | .close => init && (state == .vadStart || state == .vadClose)

def Expected : Event → Sys → Prop
  | .take, s => ∀ evt ∈ s.mailbox.head?, expected s.init s.state evt = true
  | .post _, _ | .exec, _ | .interrupt _, _ => True

instance (e : Event) (s : Sys) : Decidable (Expected e s) :=
  match e with
  | .take => inferInstanceAs (Decidable (∀ evt ∈ s.mailbox.head?, expected s.init s.state evt = true))
  | .post _ | .exec | .interrupt _ => isTrue trivial

/-! ## The queue -/

section Queue

variable {q q' : CommandQueue} {c : Cmd} {l : List Cmd}

/-- Where the next command is taken out. -/
def CommandQueue.start (q : CommandQueue) : Int := if q.out < 0 then 0 else q.out

/-- The queue holds these commands, in order; an empty one is at its reset values. -/
structure CommandQueue.Holds (q : CommandQueue) (l : List Cmd) : Prop where
  out : -1 ≤ q.out
  idx : q.idx = if l = [] then -1 else q.start + l.length
  reset : l = [] → q.out = -1
  data : ∀ (i : Nat) c, l[i]? = some c → q.data (q.start + i) = c

theorem CommandQueue.Holds.start_nonneg (h : q.Holds l) : 0 ≤ q.start := by
  have hout := h.out
  unfold CommandQueue.start
  split
  · omega
  · omega

theorem cmdQueueEnqueue_holds (h : q.Holds l) (hroom : q.start + l.length < cmdQueueDataSize) :
    ∃ q', cmdQueueEnqueue q c = some q' ∧ q'.Holds (l ++ [c]) ∧ q'.start = q.start := by
  have hstart := h.start_nonneg
  have hidx := h.idx
  have hplace : (if q.idx < 0 then 0 else q.idx) = q.start + l.length := by
    by_cases hempty : l = []
    · rw [if_pos hempty] at hidx
      have hzero : q.start = 0 := by rw [CommandQueue.start, h.reset hempty, if_pos (by decide)]
      rw [hidx, if_pos (by decide), hzero, hempty]
      rfl
    · rw [if_neg hempty] at hidx
      rw [if_neg (by omega), hidx]
  have hlt : ¬q.idx ≥ cmdQueueDataSize := by
    split at hidx
    · omega
    · omega
  refine ⟨_, if_neg hlt, ⟨h.out, ?_, fun hnil => ?_, ?_⟩, rfl⟩
  · rw [if_neg (List.append_ne_nil_of_right_ne_nil l (List.cons_ne_nil c []))]
    change (if q.idx < 0 then 0 else q.idx) + 1 = q.start + ((l ++ [c]).length : Nat)
    rw [hplace, List.length_append, List.length_singleton]
    omega
  · exact absurd hnil (List.append_ne_nil_of_right_ne_nil l (List.cons_ne_nil c []))
  · intro i c' hget
    change Function.update q.data (if q.idx < 0 then 0 else q.idx) c (q.start + i) = c'
    rw [hplace]
    by_cases hlast : i = l.length
    · subst hlast
      rw [List.getElem?_concat_length] at hget
      rw [Function.update_self]
      exact Option.some_inj.mp hget
    · have hi : i < l.length := by
        have hbound := (List.getElem?_eq_some_iff.mp hget).1
        rw [List.length_append, List.length_singleton] at hbound
        omega
      rw [List.getElem?_append_left hi] at hget
      rw [Function.update_of_ne (by omega)]
      exact h.data i c' hget

/-- An array that fits is taken as a whole. -/
theorem sendCmdArray_holds {cmds : List Cmd} (h : q.Holds l) (hroom : q.start + (l.length + cmds.length) ≤ cmdQueueDataSize) :
    (sendCmdArray q cmds).2 = true ∧ (sendCmdArray q cmds).1.Holds (l ++ cmds) := by
  induction cmds generalizing q l with
  | nil =>
    rw [List.append_nil]
    exact ⟨rfl, h⟩
  | cons c cmds ih =>
    rw [List.length_cons] at hroom
    obtain ⟨q', heq, hholds, hstart⟩ := cmdQueueEnqueue_holds (c := c) h (by omega)
    have hrest := ih hholds (by rw [hstart, List.length_append, List.length_singleton]; omega)
    rw [List.append_assoc] at hrest
    rw [sendCmdArray, heq]
    exact hrest

theorem cmdQueueDequeue_holds (h : q.Holds (c :: l)) :
    ∃ q', cmdQueueDequeue q = some (c, q') ∧ q'.Holds l ∧ cmdQueueIsEmpty q' = l.isEmpty := by
  have hstart := h.start_nonneg
  have hidx := h.idx
  rw [if_neg (List.cons_ne_nil c l), List.length_cons] at hidx
  have hfirst := h.data 0 c rfl
  rw [Int.natCast_zero, Int.add_zero] at hfirst
  have htake : cmdQueueDequeue q =
      some (q.data q.start, if q.start + 1 ≥ q.idx then { q with out := -1, idx := -1 } else { q with out := q.start + 1 }) := by
    rw [cmdQueueDequeue, if_neg (by omega)]
    rfl
  rw [htake, hfirst]
  cases l with
  | nil =>
    rw [if_pos (by rw [hidx]; simp)]
    exact ⟨_, rfl, ⟨Int.le_refl _, rfl, fun _ => rfl, fun i c' hget => by cases hget⟩, rfl⟩
  | cons c₂ l =>
    rw [List.length_cons] at hidx
    rw [if_neg (by omega)]
    have hnext : CommandQueue.start { q with out := q.start + 1 } = q.start + 1 :=
      if_neg (Int.not_lt.mpr (by change 0 ≤ q.start + 1; omega))
    refine ⟨_, rfl, ⟨?_, ?_, fun hnil => (by cases hnil), ?_⟩, ?_⟩
    · change -1 ≤ q.start + 1
      omega
    · rw [if_neg (List.cons_ne_nil c₂ l), hnext, List.length_cons]
      change q.idx = _
      omega
    · intro i c' hget
      rw [hnext]
      have hlater := h.data (i + 1) c' hget
      rw [← hlater]
      change q.data _ = q.data _
      congr 1
      omega
    · exact decide_eq_false (by change ¬q.idx < 0; omega)

end Queue

/-! ## Runs -/

section Runs

variable {s s' : Sys} {state : Cmd} {evt : Evt} {d : Device} {cmds : List Cmd}

/-- The status behind some commands. -/
def stateAfter (state : Cmd) (cmds : List Cmd) : Cmd := cmds.foldl (fun state cmd => setStatus cmd state) state

/-- The mode of a device where the detector stands between two events. -/
def standing : Device → Cmd → Option Mode
  | .vad, .vadStart | .cap, .vadClose => some .started
  | .vad, .idle | .vad, .vadClose | .vad, .exit | .cap, .idle | .cap, .vadStart | .cap, .exit => some .closed
  | _, _ => none

/-- An expected array leads from where the detector stands to where it stands next; a close event lets it exit. -/
theorem cmdArray_leads (h : expected true state evt = true) (d : Device) :
    ∃ m m', standing d state = some m ∧ replay ((cmdArray state evt).filterMap (Cmd.op d)) m = some m' ∧
      standing d (stateAfter state (cmdArray state evt)) = some m' := by
  cases evt <;> cases state <;> first | exact absurd h (by decide) | cases d <;> exact ⟨_, _, rfl, rfl, rfl⟩

theorem close_exits (h : expected true state .close = true) : stateAfter state (cmdArray state .close) = .exit := by
  cases state <;> first | exact absurd h (by decide) | rfl

theorem cmdArray_length (state : Cmd) (evt : Evt) : 0 < (cmdArray state evt).length ∧ (cmdArray state evt).length ≤ 5 := by
  cases evt with
  | vadStart =>
    rw [cmdArray]
    split
    · decide
    · decide
  | audCapStart =>
    rw [cmdArray]
    decide
  | close =>
    rw [cmdArray]
    split
    · decide
    · decide

theorem mode_append (d : Device) (cmds cmds' : List Cmd) :
    mode d (cmds ++ cmds') = (mode d cmds).bind (replay (cmds'.filterMap (Cmd.op d))) := by
  rw [mode, List.filterMap_append, replay_append, mode]

/-- What a run keeps: `rest` are the commands that are still to be executed, and the modes are those behind them. -/
structure Keeps (s : Sys) (rest : List Cmd) : Prop where
  queue : s.cmd_queue.Holds rest
  accepted : s.accepted = s.executed ++ rest
  idle : s.running = none ↔ rest = []
  modes : ∀ d, ∃ m, mode d s.accepted = some m ∧ standing d (stateAfter s.state rest) = some m
  exits : s.running = some .close → stateAfter s.state rest = .exit
  closed : s.init = false → s.running = none ∧ s.state = .exit

theorem Keeps.obeys {rest : List Cmd} (h : Keeps s rest) : Obeys s := by
  refine ⟨?_, ?_, ?_, ?_⟩
  · intro d
    obtain ⟨m, hm, -⟩ := h.modes d
    rw [h.accepted, mode_append] at hm
    obtain ⟨m', hm', -⟩ := Option.bind_eq_some_iff.mp hm
    rw [hm']
    rfl
  · rw [h.accepted]
    exact List.prefix_append _ _
  · intro hidle
    rw [h.accepted, h.idle.mp hidle, List.append_nil]
  · intro hinit d
    obtain ⟨hidle, hexit⟩ := h.closed hinit
    obtain ⟨m, hm, hstanding⟩ := h.modes d
    have hnone := h.idle.mp hidle
    subst hnone
    rw [h.accepted, List.append_nil] at hm
    change standing d s.state = some m at hstanding
    rw [hexit] at hstanding
    rw [hm, ← hstanding]
    cases d with
    | vad | cap => rfl

theorem Keeps.frame {rest : List Cmd} (h : Keeps s rest) (hqueue : s'.cmd_queue = s.cmd_queue) (haccepted : s'.accepted = s.accepted)
    (hexecuted : s'.executed = s.executed) (hrunning : s'.running = s.running) (hstate : s'.state = s.state)
    (hinit : s'.init = s.init) : Keeps s' rest := by
  refine ⟨hqueue ▸ h.queue, ?_, ?_, ?_, ?_, ?_⟩
  · rw [haccepted, hexecuted]
    exact h.accepted
  · rw [hrunning]
    exact h.idle
  · rw [haccepted, hstate]
    exact h.modes
  · rw [hrunning, hstate]
    exact h.exits
  · rw [hinit, hrunning, hstate]
    exact h.closed

/-- An event that is expected: the whole array is queued. -/
theorem Keeps.take (h : Keeps s []) {mailbox : List Evt} (hexpected : expected s.init s.state evt = true) :
    Keeps (process evt { s with mailbox := mailbox }) (cmdArray s.state evt) := by
  have hinit : s.init = true := by
    cases hopen : s.init with
    | true => rfl
    | false =>
      rw [hopen] at hexpected
      cases evt with
      | vadStart | audCapStart | close => cases hexpected
  rw [hinit] at hexpected
  obtain ⟨hpos, hlen⟩ := cmdArray_length s.state evt
  have hstart : s.cmd_queue.start = 0 := by rw [CommandQueue.start, h.queue.reset rfl, if_pos (by decide)]
  have hroom : s.cmd_queue.start + (([] : List Cmd).length + (cmdArray s.state evt).length) ≤ cmdQueueDataSize := by
    rw [hstart, List.length_nil, cmdQueueDataSize]
    omega
  obtain ⟨hsent, hholds⟩ := sendCmdArray_holds h.queue hroom
  have haccepted : (process evt { s with mailbox := mailbox }).accepted = s.accepted ++ cmdArray s.state evt := by
    rw [process]
    exact if_pos hsent
  have hrunning : (process evt { s with mailbox := mailbox }).running = some evt := if_pos hinit
  have hnone := h.accepted
  rw [List.append_nil] at hnone
  refine ⟨hholds, ?_, ?_, ?_, ?_, ?_⟩
  · rw [haccepted, hnone]
    rfl
  · rw [hrunning]
    refine ⟨fun hcontra => (by cases hcontra), fun hnil => ?_⟩
    rw [hnil] at hpos
    cases hpos
  · intro d
    obtain ⟨m, hm, hstanding⟩ := h.modes d
    obtain ⟨m₀, m', hm₀, hreplay, hnext⟩ := cmdArray_leads hexpected d
    have hsame : m = m₀ := Option.some_inj.mp (hstanding.symm.trans hm₀)
    refine ⟨m', ?_, hnext⟩
    rw [haccepted, mode_append, hm, hsame]
    exact hreplay
  · intro hclose
    rw [hrunning] at hclose
    cases Option.some_inj.mp hclose
    exact close_exits hexpected
  · intro hclosed
    exact absurd (hclosed.symm.trans hinit) (by decide)

/-- A round executes the first command that is queued. -/
theorem Keeps.exec {c : Cmd} {rest : List Cmd} (h : Keeps s (c :: rest)) (hrunning : s.running = some evt) :
    Keeps (runStep evt s) rest := by
  obtain ⟨q', hdequeue, hholds, hempty⟩ := cmdQueueDequeue_holds h.queue
  have haccepted : s.accepted = (s.executed ++ [c]) ++ rest := by
    rw [h.accepted, List.append_assoc]
    rfl
  have hinit : s.init ≠ false := fun hclosed => by
    rw [(h.closed hclosed).1] at hrunning
    cases hrunning
  unfold runStep
  rw [hdequeue]
  change Keeps (if cmdQueueIsEmpty q' then finish evt (processCmd c { s with cmd_queue := q' })
    else processCmd c { s with cmd_queue := q' }) rest
  rw [hempty]
  cases rest with
  | nil =>
    -- the last command: the event has been processed
    refine ⟨hholds, haccepted, ⟨fun _ => rfl, fun _ => rfl⟩, h.modes, fun hcontra => (by cases hcontra), fun hclosed => ⟨rfl, ?_⟩⟩
    have hclosed : (if evt = .close then false else s.init) = false := hclosed
    split at hclosed
    · rename_i hclose
      subst hclose
      exact h.exits hrunning
    · exact absurd hclosed hinit
  | cons c₂ rest =>
    refine ⟨hholds, haccepted, ⟨fun hnone => ?_, fun hnil => (by cases hnil)⟩, h.modes, h.exits,
      fun hclosed => absurd hclosed hinit⟩
    have hnone : s.running = none := hnone
    rw [hnone] at hrunning
    cases hrunning

theorem step_keeps {e : Event} {rest : List Cmd} (h : Keeps s rest) (hexpected : Expected e s) (hstep : step e s = some s') :
    ∃ rest', Keeps s' rest' := by
  cases e with
  | post evt =>
    cases Option.some_inj.mp hstep
    exact ⟨rest, h.frame rfl rfl rfl rfl rfl rfl⟩
  | take =>
    rw [step] at hstep
    split at hstep
    · rename_i evt mailbox hidle hmailbox
      cases Option.some_inj.mp hstep
      obtain rfl := h.idle.mp hidle
      exact ⟨_, h.take (hexpected evt (by rw [hmailbox]; rfl))⟩
    · cases hstep
  | exec =>
    obtain ⟨evt, hrunning, rfl⟩ := Option.map_eq_some_iff.mp hstep
    cases rest with
    | nil =>
      rw [h.idle.mpr rfl] at hrunning
      cases hrunning
    | cons c rest => exact ⟨rest, h.exec hrunning⟩
  | interrupt found =>
    cases Option.some_inj.mp hstep
    refine ⟨rest, ?_⟩
    rw [vadCallback]
    split
    · exact h.frame rfl rfl rfl rfl rfl rfl
    · exact h.frame rfl rfl rfl rfl rfl rfl

end Runs

/-- In a run in which every event that is taken is expected, the commands obey the protocol of both devices. -/
theorem obeys_of_run {s : Sys} {es : List Event} (h : Run step Expected (· = opened) s es) : Obeys s := by
  obtain ⟨rest, hkeeps⟩ := h.inv (fun s => ∃ rest, Keeps s rest) (by
    rintro s rfl
    refine ⟨[], ⟨⟨Int.le_refl _, rfl, fun _ => rfl, fun i c hget => (by cases hget)⟩, rfl, ⟨fun _ => rfl, fun _ => rfl⟩,
      fun d => ⟨.closed, rfl, ?_⟩, fun hclose => (by cases hclose), fun hclosed => (by cases hclosed)⟩⟩
    cases d with
    | vad | cap => rfl) fun e s s' ⟨_, hkeeps⟩ hexpected hstep => step_keeps hkeeps hexpected hstep
  exact hkeeps.obeys

/-- The VAD starts and wakes the system up, the capture starts, and all is closed. -/
theorem obeys_of_run_wakeup :
    ∃ s, Run step Expected (· = opened) s
        [.post .vadStart, .take, .exec, .exec, .exec, .interrupt true, .take, .exec, .exec, .exec, .exec, .post .close, .take,
          .exec, .exec, .exec] ∧
      s.init = false ∧ Obeys s := by
  obtain ⟨s, hrun, hgood⟩ := exists_run_of_check step Expected (· = opened) (some opened)
    [.post .vadStart, .take, .exec, .exec, .exec, .interrupt true, .take, .exec, .exec, .exec, .exec, .post .close, .take,
      .exec, .exec, .exec] (fun s => decide (s.init = false)) (fun _ h => (Option.some_inj.mp h).symm) (by decide)
  exact ⟨s, hrun, of_decide_eq_true hgood, obeys_of_run hrun⟩

/-- The VAD runs, and an interrupt without a find starts it once more: it is opened while it has started. -/
theorem vad_opened_twice :
    ∃ s, Run step (fun _ _ => True) (· = opened) s
        [.post .vadStart, .take, .exec, .exec, .exec, .interrupt false, .take, .exec] ∧ ¬Obeys s := by
  obtain ⟨s, hrun, hgood⟩ := exists_run_of_check step (fun _ _ => True) (· = opened) (some opened)
    [.post .vadStart, .take, .exec, .exec, .exec, .interrupt false, .take, .exec]
    (fun s => decide (mode .vad s.executed = none)) (fun _ h => (Option.some_inj.mp h).symm) (by decide)
  refine ⟨s, hrun, fun hobeys => ?_⟩
  have hsome := hobeys.protocol .vad
  rw [of_decide_eq_true hgood] at hsome
  cases hsome

end VoiceDetector
