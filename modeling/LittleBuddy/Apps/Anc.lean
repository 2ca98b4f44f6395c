import LittleBuddy.Lib.Runs
/-!
# The work status of ANC

`apps/anc/src/app_anc.c` without `IBRT` and without the stick switch: requests to
change the status go through the mailbox of the application thread, and opening
and closing ANC through the one timer, whose expiry posts another message. The
handling of a message is a list of operations, and the timer may expire and
requests may be posted between any two of them.

The codec, the fade thread and the prompts are not part of the model.
-/
open Runs

namespace Anc

/-- The build: `__BT_ANC_KEY__`, `__ANC_INIT_ON__`, `ANC_COEF_NUM` and `ANC_COEF_LIST_NUM`. -/
structure Config where
  btAncKey : Bool
  initOn : Bool
  coefNum : Nat
  coefListNum : Nat

inductive Status where
  | off
  | on
  | waitingOn
  | waitingOff
  | initOn
  deriving DecidableEq

/-- What `anc_timer_request` asks for. -/
inductive Request where
  | none
  | open
  | close
  deriving DecidableEq

/-- The messages of `APP_MODUAL_ANC`. -/
inductive Message where
  | init
  | fadeIn
  | fadeOut
  | changeStatus (status : Bool)
  | closeCodec
  deriving DecidableEq

/-- Calls of `app_anc_open_anc` and `app_anc_close_anc`. -/
inductive Call where
  | openAnc
  | closeAnc
  deriving DecidableEq

/-- What the handling of a message still has to do. -/
inductive Op where
  | setStatus (status : Status)
  | setRequest (request : Request)
  | stopTimer
  | startTimer
  | post (m : Message)
  | call (c : Call)
  deriving DecidableEq

/-- The static variables, the mailbox, and the calls that were made. -/
structure Sys where
  anc_work_status : Status
  anc_timer_request : Request
  anc_timerid : Bool
  armed : Bool
  anc_coef_idx : Nat
  mailbox : List Message
  running : List Op
  calls : List Call

/-- `app_mailbox_put`. -/
def appMailboxPut (m : Message) (s : Sys) : Sys := { s with mailbox := s.mailbox ++ [m] }

def Op.exec (s : Sys) : Op → Sys
  | .setStatus status => { s with anc_work_status := status }
  | .setRequest request => { s with anc_timer_request := request }
  | .stopTimer => { s with armed := false }
  | .startTimer => { s with armed := true }
  | .post m => appMailboxPut m s
  | .call c => { s with calls := s.calls ++ [c] }

/-! ## The timer -/

/-- `app_anc_timer_set`. -/
def appAncTimerSet (anc_timerid : Bool) (request : Request) : List Op :=
  if anc_timerid then [.setRequest request, .stopTimer, .startTimer] else []

/-- `app_anc_timer_close`. -/
def appAncTimerClose (anc_timerid : Bool) : List Op := if anc_timerid then [.setRequest .none, .stopTimer] else []

/-- `anc_gain_fade_timer_handler`, which calls `app_anc_gain_fadein` or
`app_anc_post_anc_codec_close`. -/
def ancGainFadeTimerHandler (s : Sys) : Sys :=
  let s := match s.anc_timer_request with
    | .open => appMailboxPut .fadeIn s
    | .close => appMailboxPut .closeCodec s
    | .none => s
  { s with anc_timer_request := .none, armed := false }

/-! ## Messages -/

/-- `app_anc_status_change`. -/
def appAncStatusChange (cfg : Config) (s : Sys) : Sys :=
  let close := { s with
    anc_coef_idx := 0
    running := appAncTimerSet s.anc_timerid .close ++ [.post .fadeOut, .setStatus .waitingOff] }
  match s.anc_work_status with
  | .off => { s with running := .setStatus .waitingOn :: appAncTimerSet s.anc_timerid .open ++ [.call .openAnc] }
  | .on =>
    if cfg.coefListNum > 1 then
      let anc_coef_idx := if cfg.btAncKey then s.anc_coef_idx + 1 else s.anc_coef_idx
      -- the fade thread changes the coefficients, the status stays
      if anc_coef_idx < cfg.coefListNum then { s with anc_coef_idx } else close
    else close
  | .initOn => { s with running := [.post .fadeIn, .setStatus .waitingOn] ++ appAncTimerClose s.anc_timerid }
  | _ => s

/-- `app_anc_handle_process`. -/
def appAncHandleProcess (cfg : Config) (s : Sys) : Message → Sys
  | .init =>
    { s with
      anc_timerid := true
      running :=
        if cfg.initOn then [.call .openAnc, .setStatus .initOn] ++ appAncTimerSet true .close else [.setStatus .off] }
  | .fadeIn => { s with running := [.setStatus .on] }
  | .fadeOut => { s with running := [.setStatus .initOn] }
  | .changeStatus _ => appAncStatusChange cfg s
  | .closeCodec => { s with running := [.call .closeAnc, .setStatus .off] }

/-! ## Requests -/

/-- `app_anc_work_status`. -/
def appAncWorkStatus (s : Sys) : Bool := s.anc_work_status = .on ∨ s.anc_work_status = .waitingOn

/-- `app_anc_status_post`. -/
def appAncStatusPost (status : Bool) (s : Sys) : Sys := appMailboxPut (.changeStatus status) s

/-- `app_anc_key`. -/
def appAncKey (s : Sys) : Sys := appAncStatusPost (!appAncWorkStatus s) s

/-- `app_anc_start`. -/
def appAncStart (s : Sys) : Sys :=
  if appAncWorkStatus s then s else appAncStatusPost (!appAncWorkStatus s) { s with anc_coef_idx := 0 }

/-- `app_anc_switch_coef`. -/
def appAncSwitchCoef (index : Nat) (s : Sys) : Sys :=
  if !appAncWorkStatus s then s
  else if index = s.anc_coef_idx then s
  else appAncStatusPost (!appAncWorkStatus s) { s with anc_coef_idx := index }

/-- `app_anc_stop`. -/
def appAncStop (cfg : Config) (s : Sys) : Sys :=
  if !appAncWorkStatus s then s else appAncStatusPost (!appAncWorkStatus s) { s with anc_coef_idx := cfg.coefNum }

/-! ## Runs -/

inductive Event where
  | post (status : Bool)
  | key
  | start
  | switchCoef (index : Nat)
  | stop
  | deliver
  | exec
  | expire

def step (cfg : Config) : Event → Sys → Option Sys
  | .post status, s => some (appAncStatusPost status s)
  | .key, s => if cfg.btAncKey then some (appAncKey s) else none
  | .start, s => if cfg.btAncKey then none else some (appAncStart s)
  | .switchCoef index, s => if cfg.btAncKey then none else some (appAncSwitchCoef index s)
  | .stop, s => if cfg.btAncKey then none else some (appAncStop cfg s)
  -- the thread takes the next message when it has handled the last one
  | .deliver, s =>
    match s.running, s.mailbox with
    | [], m :: mailbox => some (appAncHandleProcess cfg { s with mailbox } m)
    | _, _ => none
  | .exec, s =>
    match s.running with
    | op :: running => some (op.exec { s with running })
    | [] => none
  | .expire, s => if s.armed then some (ancGainFadeTimerHandler s) else none

/-- After `app_anc_open_module`. -/
def init : Sys where
  anc_work_status := .off
  anc_timer_request := .none
  anc_timerid := false
  armed := false
  anc_coef_idx := 0
  mailbox := [.init]
  running := []
  calls := []

end Anc
