import LittleBuddy.Lib.Runs
import Mathlib.Logic.Function.Basic
/-!
# The wind states of the two earbuds

`apps/anc/src/anc_wnr.c` on both earbuds, with the TWS link up and ANC on. Each
of them detects a wind state of its own; the slave notifies the master or the
master asks for it, and the master sets a trigger: both are to apply the higher
state when the target time is reached, each by its timer.

The timer is that of `rtos/rtx`: at its end a call of the handler is queued for
the timer thread. `bt_syn_get_curr_ticks` is not in the repository and may
answer anything.
-/
open Runs

namespace Wnr

/-! ## The code -/

/-- `nv_role`. -/
inductive Role where
  | master
  | slave
  deriving DecidableEq

def Role.peer : Role → Role
  | .master => .slave
  | .slave => .master

/-- `anc_wnr_open_mode_t` of an open module. -/
inductive OpenMode where
  | standalone
  | configure

/-- `WNR_SYNC_COUNTER_THRESHOLD_FOR_NORMAL` and `WNR_SYNC_COUNTER_THRESHOLD_FOR_SCO`. -/
def syncCounterThreshold : OpenMode → Nat
  | .standalone => 35
  | .configure => 18

/-- `WNR_SYNC_TRIGGER_DELAY`. -/
abbrev syncTriggerDelay : Nat := 300

/-- `TICKS_TO_MS` and `MS_TO_TICKS`, at 16000 ticks a second. -/
abbrev ticksPerMs : Nat := 16

/-- The part of `anc_wnr_state_queue_t` for the mode. -/
structure StateQueue where
  buf : List UInt8
  index : Nat
  number : Nat

/-- `app_wnr_push_state_to_queue`. -/
def appWnrPushStateToQueue (open_mode : OpenMode) (arg0 : UInt8) (q : StateQueue) : StateQueue where
  buf := q.buf.set q.index arg0
  index := if q.index + 1 ≥ syncCounterThreshold open_mode then 0 else q.index + 1
  number := if q.number < syncCounterThreshold open_mode then q.number + 1 else q.number

/-- `app_wnr_get_state_from_queue`. -/
def appWnrGetStateFromQueue (q : StateQueue) : UInt8 :=
  let states := q.buf.take q.number
  let counter0 := states.count 0
  let counter1 := states.count 1
  let counter2 := states.count 2
  if counter0 ≥ counter1 then if counter0 ≥ counter2 then 0 else 2
  else if counter1 ≥ counter2 then 1 else 2

/-- `app_wnr_sync_timer`: it runs, and that many calls of its handler are queued. -/
structure SyncTimer where
  running : Bool
  queued : Nat

/-- `osTimerStop`. -/
def osTimerStop (t : SyncTimer) : SyncTimer := { t with running := false }

/-- `rt_ms2tick`, with `os_clockrate` 1000. -/
def rtMs2tick (millisec : Nat) : Nat :=
  if millisec = 0xffffffff then 0xffff
  else if millisec > 4000000 then 0xfffe
  else min ((1000 * millisec + 1000 - 1) / 1000) 0xfffe

/-- `osTimerStart`, which refuses no time. -/
def osTimerStart (millisec : Nat) (t : SyncTimer) : SyncTimer :=
  if rtMs2tick millisec = 0 then t else { t with running := true }

/-- The internal events with their arguments. -/
inductive Evt where
  | notifyDetectResult
  | requestDetectResult
  | responseDetectResult (arg0 : UInt8)
  | processDetectResult (arg0 : UInt8)
  | setTrigger (arg0 : UInt8) (arg1 : UInt32)
  | excuteTrigger (arg0 : UInt8)
  deriving DecidableEq

/-- The messages to the peer with their bytes. -/
inductive Cmd where
  | notifyDetectResult (state : UInt8)
  | requestDetectResult (state : UInt8)
  | responseDetectResult (state : UInt8)
  | setTrigger (state ticks24 ticks16 ticks8 ticks0 : UInt8)
  deriving DecidableEq

/-- The static variables of an earbud and its mailbox. Both counters of the
detection rounds are reset together, and only the one of the mode is counted. -/
structure Side where
  g_wnr_open_mode : OpenMode
  g_anc_wnr_state_queue : StateQueue
  wnr_sync_counter : Nat
  g_wind_st : UInt8
  g_set_Windstate : UInt8
  g_local_Windstate : UInt8
  g_peer_Windstate : UInt8
  g_local_Wind_module_onoff : Bool
  g_peer_Wind_module_onoff : Bool
  g_wnr_notify_flag : Bool
  g_wnr_request_flag : Bool
  g_wnr_sync_flag : Bool
  app_wnr_sync_timer : SyncTimer
  mailbox : List Evt

/-- `app_wnr_trigger_internal_event`. -/
def appWnrTriggerInternalEvent (evt : Evt) (s : Side) : Side := { s with mailbox := s.mailbox ++ [evt] }

/-- `app_wnr_sync_timer_handler`. Its parameter points to `g_set_Windstate`. -/
def appWnrSyncTimerHandler (s : Side) : Side :=
  if s.g_local_Wind_module_onoff then appWnrTriggerInternalEvent (.excuteTrigger s.g_set_Windstate) s else s

/-- `app_wnr_notify_detect_result`. -/
def appWnrNotifyDetectResult (s : Side) : Side × List Cmd :=
  ({ s with g_wnr_sync_flag := false, g_wnr_notify_flag := true }, [.notifyDetectResult s.g_local_Windstate])

/-- `app_wnr_request_detect_result`. -/
def appWnrRequestDetectResult (s : Side) : Side × List Cmd :=
  ({ s with g_wnr_sync_flag := false, g_wnr_request_flag := true }, [.requestDetectResult s.g_local_Windstate])

/-- `app_wnr_response_detect_result`. -/
def appWnrResponseDetectResult (arg0 : UInt8) (s : Side) : Side × List Cmd :=
  if s.g_wnr_notify_flag then ({ s with g_wnr_notify_flag := false }, [])
  else
    let s := { s with
      g_wnr_sync_flag := false
      g_local_Windstate := appWnrGetStateFromQueue s.g_anc_wnr_state_queue
      g_peer_Windstate := arg0 }
    (s, [.responseDetectResult s.g_local_Windstate])

/-- `app_wnr_process_detect_result`. -/
def appWnrProcessDetectResult (arg0 : UInt8) (s : Side) : Side :=
  let s := if s.g_wnr_request_flag then s
    else { s with g_local_Windstate := appWnrGetStateFromQueue s.g_anc_wnr_state_queue }
  let s := { s with g_wnr_sync_flag := false, g_wnr_request_flag := false, g_peer_Windstate := arg0 }
  if s.g_local_Windstate ≥ s.g_peer_Windstate then
    if s.g_local_Wind_module_onoff then appWnrTriggerInternalEvent (.setTrigger s.g_local_Windstate 0) s else s
  else if s.g_local_Wind_module_onoff then appWnrTriggerInternalEvent (.setTrigger s.g_peer_Windstate 0) s else s

/-- The message with the target time, byte by byte. -/
def setTriggerCmd (arg0 : UInt8) (tg_ticks : UInt32) : Cmd :=
  .setTrigger arg0 ((tg_ticks &&& 0xff000000) >>> 24).toUInt8 ((tg_ticks &&& 0x00ff0000) >>> 16).toUInt8
    ((tg_ticks &&& 0x0000ff00) >>> 8).toUInt8 (tg_ticks &&& 0x000000ff).toUInt8

/-- `app_wnr_set_trigger`, where `current_ticks` is what `bt_syn_get_curr_ticks` answers. -/
def appWnrSetTrigger (role : Role) (arg0 : UInt8) (arg1 current_ticks : UInt32) (s : Side) : Side × List Cmd :=
  if s.g_peer_Wind_module_onoff then
    match role with
    | .master =>
      let tg_ticks := current_ticks + UInt32.ofNat (syncTriggerDelay * ticksPerMs)
      let s :=
        if tg_ticks ≠ current_ticks then
          { s with
            g_set_Windstate := arg0
            app_wnr_sync_timer := osTimerStart syncTriggerDelay (osTimerStop s.app_wnr_sync_timer) }
        else if s.g_local_Wind_module_onoff then appWnrTriggerInternalEvent (.excuteTrigger arg0) s
        else s
      (s, [setTriggerCmd arg0 tg_ticks])
    | .slave =>
      let s := { s with g_wnr_notify_flag := false }
      if arg1 > current_ticks then
        let diff_ticks := arg1 - current_ticks
        ({ s with
          g_set_Windstate := arg0
          app_wnr_sync_timer := osTimerStart (diff_ticks.toNat / ticksPerMs) (osTimerStop s.app_wnr_sync_timer) }, [])
      else (if s.g_local_Wind_module_onoff then appWnrTriggerInternalEvent (.excuteTrigger arg0) s else s, [])
  else (if s.g_local_Wind_module_onoff then appWnrTriggerInternalEvent (.excuteTrigger arg0) s else s, [])

/-- `app_wnr_excute_trigger`, without the gain. -/
def appWnrExcuteTrigger (arg0 : UInt8) (s : Side) : Side :=
  if arg0 ≠ s.g_wind_st then { s with g_wind_st := arg0 } else s

/-- `app_wnr_internal_event_process`. -/
def appWnrInternalEventProcess (role : Role) (current_ticks : UInt32) (evt : Evt) (s : Side) : Side × List Cmd :=
  let s := { s with wnr_sync_counter := 0 }
  match evt with
  | .notifyDetectResult => appWnrNotifyDetectResult s
  | .requestDetectResult => appWnrRequestDetectResult s
  | .responseDetectResult arg0 => appWnrResponseDetectResult arg0 s
  | .processDetectResult arg0 => (appWnrProcessDetectResult arg0 s, [])
  | .setTrigger arg0 arg1 => appWnrSetTrigger role arg0 arg1 current_ticks s
  | .excuteTrigger arg0 => (appWnrExcuteTrigger arg0 s, [])

/-- The target time of a message. -/
def receivedTicks (ticks24 ticks16 ticks8 ticks0 : UInt8) : UInt32 :=
  (((ticks24.toUInt32 <<< 8) + ticks16.toUInt32) <<< 8 + ticks8.toUInt32) <<< 8 + ticks0.toUInt32

/-- `app_wnr_cmd_receive_process`. -/
def appWnrCmdReceiveProcess (role : Role) (s : Side) : Cmd → Side
  | .notifyDetectResult state | .responseDetectResult state =>
    if role = .master then
      let s := { s with g_peer_Wind_module_onoff := true }
      if s.g_local_Wind_module_onoff then appWnrTriggerInternalEvent (.processDetectResult state) s else s
    else s
  | .requestDetectResult state =>
    if role = .slave then
      let s := { s with g_peer_Wind_module_onoff := true }
      if s.g_local_Wind_module_onoff then appWnrTriggerInternalEvent (.responseDetectResult state) s else s
    else s
  | .setTrigger state ticks24 ticks16 ticks8 ticks0 =>
    if role = .slave then
      if s.g_local_Wind_module_onoff then
        appWnrTriggerInternalEvent (.setTrigger state (receivedTicks ticks24 ticks16 ticks8 ticks0)) s
      else s
    else s

/-- The end of `anc_wnr_process_frame`, when a wind state has been detected. -/
def ancWnrProcessFrame (role : Role) (windstate : UInt8) (s : Side) : Side :=
  let s := { s with
    g_anc_wnr_state_queue := appWnrPushStateToQueue s.g_wnr_open_mode windstate s.g_anc_wnr_state_queue
    wnr_sync_counter := s.wnr_sync_counter + 1 }
  if s.wnr_sync_counter ≥ syncCounterThreshold s.g_wnr_open_mode then
    let s := { s with
      wnr_sync_counter := 0
      g_local_Windstate := appWnrGetStateFromQueue s.g_anc_wnr_state_queue }
    let ask := match role with
      | .master => Evt.requestDetectResult
      | .slave => Evt.notifyDetectResult
    if s.g_wnr_sync_flag then
      if s.g_local_Wind_module_onoff then appWnrTriggerInternalEvent ask s else s
    else if s.g_local_Windstate ≠ s.g_wind_st ∧ s.g_peer_Wind_module_onoff then
      if s.g_local_Wind_module_onoff then appWnrTriggerInternalEvent ask s else s
    else if ¬ s.g_peer_Wind_module_onoff ∧ s.g_local_Windstate ≠ s.g_wind_st then
      if s.g_local_Wind_module_onoff then appWnrTriggerInternalEvent (.setTrigger s.g_local_Windstate 0) s else s
    else s
  else s

/-! ## Runs -/

/-- The state of a `SET_TRIGGER`. -/
def Cmd.trigger : Cmd → Option UInt8
  | .setTrigger state .. => some state
  | _ => none

/-- Both earbuds, the messages on the way to each, and the states of the triggers that were set. -/
structure Sys where
  side : Role → Side
  inbox : Role → List Cmd
  triggers : List UInt8

inductive Event where
  | frame (role : Role) (windstate : UInt8)
  | deliver (role : Role)
  | handle (role : Role) (current_ticks : UInt32)
  | timeout (role : Role)
  | handler (role : Role)

def step : Event → Sys → Option Sys
  | .frame r windstate, s => some { s with side := Function.update s.side r (ancWnrProcessFrame r windstate (s.side r)) }
  | .deliver r, s =>
    match s.inbox r with
    | [] => none
    | cmd :: inbox =>
      some { s with
        side := Function.update s.side r (appWnrCmdReceiveProcess r (s.side r) cmd)
        inbox := Function.update s.inbox r inbox }
  | .handle r current_ticks, s =>
    match (s.side r).mailbox with
    | [] => none
    | evt :: mailbox =>
      let (side, cmds) := appWnrInternalEventProcess r current_ticks evt { s.side r with mailbox }
      some {
        side := Function.update s.side r side
        inbox := Function.update s.inbox r.peer (s.inbox r.peer ++ cmds)
        triggers := s.triggers ++ cmds.filterMap Cmd.trigger }
  | .timeout r, s =>
    let timer := (s.side r).app_wnr_sync_timer
    if timer.running then
      some { s with side := Function.update s.side r { s.side r with app_wnr_sync_timer := ⟨false, timer.queued + 1⟩ } }
    else none
  | .handler r, s =>
    let timer := (s.side r).app_wnr_sync_timer
    if timer.queued > 0 then
      let side := { s.side r with app_wnr_sync_timer := { timer with queued := timer.queued - 1 } }
      some { s with side := Function.update s.side r (appWnrSyncTimerHandler side) }
    else none

/-- The modules were opened and know of each other. Nothing has happened yet. -/
structure Init (s : Sys) : Prop where
  opened : ∀ r, (s.side r).g_local_Wind_module_onoff = true ∧ (s.side r).g_peer_Wind_module_onoff = true
  wind : ∀ r, (s.side r).g_wind_st = 0
  timer : ∀ r, (s.side r).app_wnr_sync_timer = ⟨false, 0⟩
  mailbox : ∀ r, (s.side r).mailbox = []
  inbox : ∀ r, s.inbox r = []
  triggers : s.triggers = []

end Wnr
