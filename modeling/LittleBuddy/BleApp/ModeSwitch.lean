import LittleBuddy.Lib.Runs
import Mathlib.Data.List.Basic
import Mathlib.Tactic.Common
/-!
# The activities of BLE

`app_ble_mode_switch.c` advertises, scans or connects, one at a time. A request
that comes during another activity stops it, and a request that comes while a
command is under way waits in the one pending operation. Requests and the
answers of the controller are functions that run in the Bluetooth thread, in
the order they were queued. `Settled` says that the latest request wins.

Connections that the controller reports, which end an activity by themselves,
are left out.
-/
open Runs

namespace BleApp.ModeSwitch

/-! ## The environment -/

structure AdvParam where
  withFlag : Bool
  advType : Nat
  advInterval : Nat
  advData : List UInt8
  scanRspData : List UInt8
  deriving DecidableEq

/-- The `memset` of a parameter. -/
def AdvParam.zero : AdvParam := { withFlag := false, advType := 0, advInterval := 0, advData := [], scanRspData := [] }

structure ScanParam where
  scanType : Nat
  scanWindow : Nat
  scanInterval : Nat
  deriving DecidableEq

abbrev Addr := List UInt8

/-- `BLE_STATE_E`. -/
inductive BleState
  | idle | advertising | startingAdv | stoppingAdv | scanning | startingScan | stoppingScan
  | connecting | startingConnect | stoppingConnect
  deriving DecidableEq

/-- `BLE_OP_E`. -/
inductive BleOp
  | idle | startAdv | startScan | startConnect | stopAdv | stopScan | stopConnect
  deriving DecidableEq

/-- What is handed to the stack. -/
inductive Cmd
  | startAdv | updateAdv | startScan | startConnect | stopAdv | stopScan | stopConnect
  deriving DecidableEq

/-- A function queued for the Bluetooth thread. A request keeps what it asks
for; its handler reads the globals. -/
inductive Fn
  | startAdv | startScan (p : ScanParam) | startConnect (a : Addr) | stopAll
  | switchActivities | advFailed | scanFailed | connectFailed

inductive Activity
  | idle | adv (p : AdvParam) | scan (p : ScanParam) | connect (a : Addr)
  deriving DecidableEq

/-- `bleModeEnv` with the globals `advParam` and `scanParam`, the address of the
last connection that was handed to the stack, the commands that the stack has
not answered, and the queue. `wanted` is what the latest accepted request asks
for, `idle` once it has failed, and `superseded` tells whether a request came
after the last command. -/
structure Sys where
  state : BleState
  op : BleOp
  advInfo : AdvParam
  scanInfo : ScanParam
  bleAddrToConnect : Addr
  advParam : AdvParam
  scanParam : ScanParam
  connectTo : Addr
  unanswered : List Cmd
  queue : List Fn
  wanted : Activity
  superseded : Bool

namespace Sys

/-- A command is handed to the stack. -/
def hand (c : Cmd) (s : Sys) : Sys := { s with unanswered := s.unanswered ++ [c], superseded := false }

/-- `app_bt_start_custom_function_in_bt_thread`. -/
def post (f : Fn) (s : Sys) : Sys := { s with queue := s.queue ++ [f] }

/-- A request is accepted. -/
def ask (a : Activity) (s : Sys) : Sys := { s with wanted := a, superseded := true }

/-- A start fails: nothing is wanted any more, unless a request came meanwhile. -/
def fail (s : Sys) : Sys := if s.superseded then s else { s with wanted := .idle }

end Sys

/-! ## The handlers of the Bluetooth thread -/

/-- `app_ble_stop_activities`. -/
def appBleStopActivities (s : Sys) : Sys := if s.state = .idle then s else s.post .stopAll

/-- `ble_adv_is_allowed`: without the permission all activities are stopped. -/
def bleAdvIsAllowed (allowed : Bool) (s : Sys) : Sys := if allowed then s else appBleStopActivities s

/-- What `ble_start_adv` and `ble_start_scan` share: an activity is stopped first,
with the operation pending, and a command under way is waited for. -/
def startOrWait (op : BleOp) (start : Sys → Sys) (s : Sys) : Sys :=
  match s.state with
  | .advertising => { s with state := .stoppingAdv, op := op }.hand .stopAdv
  | .scanning => { s with state := .stoppingScan, op := op }.hand .stopScan
  | .connecting => { s with state := .stoppingConnect, op := op }.hand .stopConnect
  | .idle => start s
  | _ => { s with op := op }

/-- `ble_start_adv(&advParam)`. An advertising that is not allowed when its turn
comes has failed. -/
def bleStartAdv (allowed : Bool) (s : Sys) : Sys :=
  startOrWait .startAdv (fun s =>
    if allowed then { s with advInfo := s.advParam, state := .startingAdv }.hand .startAdv
    else
      let s := bleAdvIsAllowed allowed s
      { s with op := if s.op = .startAdv then .idle else s.op, wanted := .idle }) s

/-- `ble_start_scan(&scanParam)`. -/
def bleStartScan (s : Sys) : Sys :=
  startOrWait .startScan (fun s => { s with state := .startingScan, scanInfo := s.scanParam }.hand .startScan) s

/-- `ble_start_connect(bleAddrToConnect)`. -/
def bleStartConnect (s : Sys) : Sys :=
  let s := { s with op := .startConnect }
  match s.state with
  | .advertising => { s with state := .stoppingAdv }.hand .stopAdv
  | .scanning => { s with state := .stoppingScan }.hand .stopScan
  | .idle => { s with state := .startingConnect, connectTo := s.bleAddrToConnect }.hand .startConnect
  | _ => s

/-- `ble_stop_all_activities`. -/
def bleStopAllActivities (s : Sys) : Sys :=
  match s.state with
  | .advertising => { s with op := .idle, state := .stoppingAdv }.hand .stopAdv
  | .scanning => { s with op := .idle, state := .stoppingScan }.hand .stopScan
  | .connecting => { s with op := .idle, state := .stoppingConnect }.hand .stopConnect
  | .startingAdv => { s with op := .stopAdv }
  | .startingScan => { s with op := .stopScan }
  | .startingConnect => { s with op := .stopConnect }
  | .stoppingAdv | .stoppingScan | .stoppingConnect => { s with op := .idle }
  | .idle => s

/-- `ble_execute_pending_op`. -/
def bleExecutePendingOp (allowed : Bool) (s : Sys) : Sys :=
  let op := s.op
  let s := { s with op := .idle }
  match op with
  | .startAdv => bleStartAdv allowed s
  | .startScan => bleStartScan s
  | .startConnect => bleStartConnect s
  | .stopAdv | .stopScan | .stopConnect => bleStopAllActivities s
  | .idle => s

/-- The state after a command was carried out. -/
def switched : BleState → BleState
  | .startingAdv => .advertising
  | .startingScan => .scanning
  | .startingConnect => .connecting
  | .stoppingAdv | .stoppingScan | .stoppingConnect => .idle
  | state => state

/-- `ble_switch_activities`. -/
def bleSwitchActivities (allowed : Bool) (s : Sys) : Sys := bleExecutePendingOp allowed { s with state := switched s.state }

/-- The handlers of a failed start leave the states that they know. -/
def failedCb (known : List BleState) (s : Sys) : Sys :=
  let s := s.fail
  if s.state ∈ known then { s with state := .idle } else s

def bleStartAdvFailedCb : Sys → Sys := failedCb [.startingAdv]

def appBleScanningStartingFailedHandler : Sys → Sys := failedCb [.startingScan]

def appBleConnectingFailedHandler : Sys → Sys := failedCb [.connecting, .stoppingConnect, .startingConnect]

/-- What the environment answers while a function runs: the permission to
advertise, what `ble_adv_config_param` leaves in `advParam`, whether some user
is enabled, and the permission when the advertising starts. -/
structure Answers where
  allowed : Bool
  param : AdvParam
  adv_user_enable : Bool
  allowedAtStart : Bool

/-- `ble_adv_refreshing(&advParam)`. -/
def bleAdvRefreshing (allowed : Bool) (s : Sys) : Sys :=
  if s.state = .advertising ∧ s.op = .idle ∧ s.advInfo.advType = s.advParam.advType ∧
      s.advInfo.advInterval = s.advParam.advInterval then
    { s with advInfo := s.advParam, state := .startingAdv }.hand .updateAdv
  else bleStartAdv allowed s

/-- `app_ble_start_adv`. -/
def appBleStartAdv (env : Answers) (s : Sys) : Sys :=
  if env.allowed = false then bleAdvIsAllowed env.allowed s
  else
    let s := { s with advParam := env.param }
    if env.adv_user_enable = false then appBleStopActivities s
    else if s.state = .advertising ∧ s.advInfo = s.advParam then s
    else bleAdvRefreshing env.allowedAtStart (s.ask (.adv s.advParam))

def runFn (env : Answers) (f : Fn) (s : Sys) : Sys :=
  match f with
  | .startAdv => appBleStartAdv env s
  | .startScan p => bleStartScan (s.ask (.scan p))
  | .startConnect a => bleStartConnect (s.ask (.connect a))
  | .stopAll => bleStopAllActivities (s.ask .idle)
  | .switchActivities => bleSwitchActivities env.allowedAtStart s
  | .advFailed => bleStartAdvFailedCb s
  | .scanFailed => appBleScanningStartingFailedHandler s
  | .connectFailed => appBleConnectingFailedHandler s

/-! ## Requests and answers -/

/-- The stack answers its first command: a start is carried out or fails. -/
def answered (ok : Bool) (c : Cmd) (s : Sys) : Sys :=
  match c, ok with
  | .startAdv, false => { s with advInfo := .zero }.post .advFailed
  | .startScan, false => s.post .scanFailed
  | .startConnect, false => s.post .connectFailed
  | .stopAdv, _ => { s with advInfo := .zero }.post .switchActivities
  | _, _ => s.post .switchActivities

inductive Event
  | startAdv | startScan (p : ScanParam) | startConnect (a : Addr) | stop
  | answer (ok : Bool)
  | run (env : Answers)

def step (e : Event) (s : Sys) : Option Sys :=
  match e with
  | .startAdv => some (s.post .startAdv)
  | .startScan p => some ({ s with scanParam := p }.post (.startScan p))
  | .startConnect a => some ({ s with bleAddrToConnect := a }.post (.startConnect a))
  | .stop => some (appBleStopActivities s)
  | .answer ok =>
    match s.unanswered with
    | [] => none
    | c :: cs => some (answered ok c { s with unanswered := cs })
  | .run env =>
    match s.queue with
    | [] => none
    | f :: fs => some (runFn env f { s with queue := fs })

/-- `app_ble_mode_init`. -/
def Init (s : Sys) : Prop :=
  s.state = .idle ∧ s.op = .idle ∧ s.unanswered = [] ∧ s.queue = [] ∧ s.wanted = .idle ∧ s.superseded = false

/-- The activity in progress, where no command is under way. -/
def activity (s : Sys) : Option Activity :=
  match s.state with
  | .idle => some .idle
  | .advertising => some (.adv s.advInfo)
  | .scanning => some (.scan s.scanInfo)
  | .connecting => some (.connect s.connectTo)
  | _ => none

/-- When nothing is unanswered and nothing is queued, no operation is pending and
the activity is the one that the latest accepted request asks for. -/
def Settled (s : Sys) : Prop :=
  s.unanswered = [] → s.queue = [] → s.op = .idle ∧ activity s = some s.wanted

/-- No handler of a failed start runs with an operation pending, and no
connection is started with the request for it still pending. -/
def Carried (e : Event) (s : Sys) : Prop :=
  match e, s.queue with
  | .run _, .advFailed :: _ | .run _, .scanFailed :: _ | .run _, .connectFailed :: _ => s.op = .idle
  | .run _, .switchActivities :: _ => s.state = .startingConnect → s.op ≠ .startConnect
  | _, _ => True

end BleApp.ModeSwitch
