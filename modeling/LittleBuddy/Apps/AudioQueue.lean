import LittleBuddy.Lib.Runs
import Mathlib.Data.List.Basic
import Mathlib.Logic.Function.Basic
/-!
# The audio queue

`app_audio_handle_process` of `app_audio.cpp` with its list, and
`app_bt_stream_open` and `app_bt_stream_close` below it, after `app_audio_open`
and without isolated streams. A stream stands in the list before the prompts,
which are played one after another.
-/
open Runs

namespace Apps.AudioQueue

/-- The streams of music and of voice, and the prompts. -/
inductive Player
  | hfpPcm | hfpCvsd | hfpVendor | a2dpSbc | a2dpAac | a2dpVendor | playBack
  deriving DecidableEq

/-- The functions that play: `bt_sco_player`, `bt_sbc_player` and `app_play_audio_onoff`. -/
inductive Kind
  | sco | sbc | prompt
  deriving DecidableEq

def Player.kind : Player → Kind
  | .hfpPcm | .hfpCvsd | .hfpVendor => .sco
  | .a2dpSbc | .a2dpAac | .a2dpVendor => .sbc
  | .playBack => .prompt

/-- `APP_AUDIO_STATUS`, with the number of the request. -/
structure Status where
  id : Player
  aud_id : Nat
  no : Nat
  deriving DecidableEq

/-- The state, with what happened to the requests. `gStreamplayer` keeps the request
that opened the stream; it is one stream, as the open one is closed before. -/
structure Sys where
  audio_list : List Status
  gStreamplayer : Option Status
  isRun : Kind → Bool
  requests : Nat
  /-- Put into the list. -/
  accepted : List Status
  /-- Closed, for a request or for another stream. -/
  closed : List Status
  /-- Taken out of the list by `APP_BT_SETTING_CLOSEALL`. -/
  cancelled : List Status
  /-- The prompts that were played. -/
  started : List Status

def MAX_AUDIO_BUF_LIST : Nat := 20

/-- The blocks of `app_audio_status_mempool`, which hold the list. -/
def poolBlocks : Nat := 20

def AUD_ID_BT_CALL_INCOMING_CALL : Nat := 21

section Streams

-- `media_Play_init_audio` finds audio for the prompt: `g_app_audio_length` is not 0
variable (hasAudio : Nat → Bool)

/-! ## The players -/

/-- `bt_sco_player` and `bt_sbc_player`. -/
def btPlayer (k : Kind) (on : Bool) (s : Sys) : Sys :=
  if s.isRun k = on then s else { s with isRun := Function.update s.isRun k on }

/-- `app_play_audio_onoff`; a prompt without audio requests its own close. -/
def appPlayAudioOn (status : Status) (s : Sys) : Sys :=
  if s.isRun .prompt then s
  else
    let s := { s with started := s.started ++ [status] }
    if hasAudio status.aud_id then { s with isRun := Function.update s.isRun .prompt true } else s

def appPlayAudioOff (s : Sys) : Sys :=
  if s.isRun .prompt = false then s else { s with isRun := Function.update s.isRun .prompt false }

/-- `app_bt_stream_close`, which returns 0 or -1. -/
def appBtStreamClose (player : Player) (s : Sys) : Int × Sys :=
  match s.gStreamplayer with
  | none => (-1, s)
  | some status =>
    if status.id ≠ player then (-1, s)
    else
      let s := match player.kind with
        | .sco => btPlayer .sco false s
        | .sbc => btPlayer .sbc false s
        | .prompt => appPlayAudioOff s
      (0, { s with gStreamplayer := none, closed := s.closed ++ [status] })

/-- `app_bt_stream_closeall`. -/
def appBtStreamCloseall (s : Sys) : Sys :=
  let s := appPlayAudioOff (btPlayer .sbc false (btPlayer .sco false s))
  { s with gStreamplayer := none, closed := s.closed ++ s.gStreamplayer.toList }

/-! ## The list -/

def appAudioListStreamExist (s : Sys) : Bool := s.audio_list.any fun audio_handle => audio_handle.id ≠ .playBack

def appAudioListPlaybackExist (s : Sys) : Bool := s.audio_list.any fun audio_handle => audio_handle.id = .playBack

/-- The loop of `app_audio_list_filter_exist` that counts. -/
def countFilter (cnt : Nat) : List Status → Bool
  | [] => false
  | _ :: list => if cnt > 1 then true else countFilter (cnt + 1) list

/-- `app_audio_list_filter_exist`. -/
def appAudioListFilterExist (aud_status : Status) (s : Sys) : Bool :=
  if aud_status.id = .playBack then
    if aud_status.aud_id = AUD_ID_BT_CALL_INCOMING_CALL then
      s.audio_list.any fun audio_handle => audio_handle.id = .playBack ∧ audio_handle.aud_id = AUD_ID_BT_CALL_INCOMING_CALL
    else countFilter 0 s.audio_list
  else false

/-- The end of `app_audio_list_append`: the data go to the head of the list or to its end. -/
def putData (aud_status data : Status) (add_data_to_head_of_list ret : Bool) (s : Sys) : Bool × Sys :=
  (ret, { s with
    audio_list := if add_data_to_head_of_list then data :: s.audio_list else s.audio_list ++ [data]
    accepted := s.accepted ++ [aud_status] })

/-- `app_audio_list_append`. -/
def appAudioListAppend (aud_status : Status) (s : Sys) : Bool × Sys :=
  if aud_status.id = .playBack then
    if appAudioListFilterExist aud_status s then (false, s)
    else if appAudioListPlaybackExist s then
      if s.audio_list.length ≥ MAX_AUDIO_BUF_LIST then
        if appAudioListStreamExist s then
          if s.audio_list.length ≥ poolBlocks then (false, s)
          else
            match s.audio_list with
            | [] => (false, s)
            | front :: _ => putData aud_status front true true { s with audio_list := [] }
        else putData aud_status aud_status false true { s with audio_list := [] }
      else if s.audio_list.length ≥ poolBlocks then (false, s)
      else putData aud_status aud_status false false s
    else if s.audio_list.length ≥ poolBlocks then (false, s)
    else putData aud_status aud_status false true s
  else if s.audio_list.length ≥ poolBlocks then (false, s)
  else putData aud_status aud_status true true s

/-- `APP_BT_SETTING_Q_POS_HEAD` and `APP_BT_SETTING_Q_POS_TAIL`. -/
inductive QPos
  | head | tail

/-- `app_audio_list_rmv_callback`: what is next, if anything; `none` where an assertion fails. -/
def appAudioListRmvCallback (close : Option Player) (pos : QPos) (pop_next : Bool) (s : Sys) :
    Option (Option Status × Sys) :=
  if s.audio_list.length = 0 then some (none, s)
  else if close = some .playBack then
    match s.audio_list.dropWhile fun audio_handle => audio_handle.id ≠ .playBack with
    | [] => some (none, s)
    | node :: after =>
      let removed := { s with audio_list := s.audio_list.eraseP fun audio_handle => audio_handle.id = .playBack }
      if pop_next then some (some node, removed)
      else
        match after with
        | nod_next :: _ => if nod_next.id = .playBack then some (some nod_next, removed) else none
        | [] =>
          if appAudioListStreamExist s then
            match s.audio_list with
            | [] => none
            | indata :: _ => if indata.id ≠ .playBack then some (some indata, removed) else none
          else some (none, removed)
  else if appAudioListStreamExist s then
    match pos with
    | .head => some (none, { s with audio_list := s.audio_list.tail })
    | .tail => some (none, { s with audio_list := s.audio_list.dropLast })
  else some (none, s)

/-! ## Requests -/

/-- The second half of `app_bt_stream_open`, whose players return 0. -/
def startPlayer (status : Status) (s : Sys) : Sys :=
  let s := match status.id.kind with
    | .sco => btPlayer .sco true s
    | .sbc => btPlayer .sbc true s
    | .prompt => appPlayAudioOn hasAudio status s
  { s with gStreamplayer := some status }

/-- `app_bt_stream_open`. -/
def appBtStreamOpen (status : Status) (s : Sys) : Option Sys :=
  match s.gStreamplayer with
  | none => some (startPlayer hasAudio status s)
  | some gStreamplayer =>
    let (nRet, s) := appBtStreamClose gStreamplayer.id s
    if nRet ≠ 0 then some s
    else
      -- `streamToClose.id` is read from `gStreamplayer` after the close
      (appAudioListRmvCallback (s.gStreamplayer.map Status.id) .tail false s).map fun r => startPlayer hasAudio status r.2

inductive Event
  | settingOpen (id : Player) (aud_id : Nat)
  | settingClose (id : Player)
  | settingCloseall

/-- `app_audio_handle_process`. A close of the last prompt also calls `bt_media_stop`,
which sends requests and leaves the list alone. -/
def step (e : Event) (s : Sys) : Option Sys :=
  match e with
  | .settingOpen id aud_id =>
    let aud_status : Status := ⟨id, aud_id, s.requests⟩
    let (ret, s) := appAudioListAppend aud_status { s with requests := s.requests + 1 }
    if ret then appBtStreamOpen hasAudio aud_status s else some s
  | .settingClose id =>
    let (_, s) := appBtStreamClose id s
    (appAudioListRmvCallback (some id) .head false s).bind fun (next_status, s) =>
      match next_status with
      | some next_status => appBtStreamOpen hasAudio next_status s
      | none => some s
  | .settingCloseall =>
    let s := appBtStreamCloseall s
    some { s with audio_list := [], cancelled := s.cancelled ++ s.audio_list }

/-- `app_audio_open`. -/
def Init (s : Sys) : Prop := s = ⟨[], none, fun _ => false, 0, [], [], [], []⟩

/-- The list and what plays are in agreement. -/
structure Agrees (s : Sys) : Prop where
  /-- The open stream has one entry. -/
  one_entry : ∀ p, s.gStreamplayer = some p →
    s.audio_list.count p = 1 ∧ (p.id ≠ .playBack → s.audio_list.countP (fun a => a.id = p.id) = 1)
  /-- What was accepted is in the list until it is closed or cancelled. -/
  entries : ∀ a, a ∈ s.audio_list ↔ a ∈ s.accepted ∧ a ∉ s.closed ∧ a ∉ s.cancelled
  /-- The open stream is the one that plays, unless it is a prompt without audio. -/
  plays : ∀ k, s.isRun k = true ↔ ∃ p, s.gStreamplayer = some p ∧ p.id.kind = k ∧ (k = .prompt → hasAudio p.aud_id = true)
  /-- The prompts are played once each in the order in which they were accepted. -/
  in_order : s.started.Pairwise fun a b => a.no < b.no
  /-- A prompt that was not played and not cancelled waits behind another one. -/
  played : ∀ a ∈ s.accepted, a.id = .playBack →
    a ∈ s.started ∨ a ∈ s.cancelled ∨ a ∈ s.audio_list ∧ ∃ p, s.gStreamplayer = some p ∧ p.id = .playBack

/-- A prompt comes while nothing is open or while a prompt is in the list; a stream
is opened over a prompt that none waits for; and the close of a stream is for the
open one, if one is open. -/
def Sound (e : Event) (s : Sys) : Prop :=
  match e with
  | .settingOpen .playBack _ => s.gStreamplayer = none ∨ appAudioListPlaybackExist s = true
  | .settingOpen _ _ => ∀ p, s.gStreamplayer = some p → p.id = .playBack → s.audio_list.length ≤ 1
  | .settingClose .playBack => True
  | .settingClose id => ∀ p, s.gStreamplayer = some p → p.id ≠ .playBack → p.id = id
  | .settingCloseall => True

end Streams

end Apps.AudioQueue
