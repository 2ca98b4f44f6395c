import LittleBuddy.Lib.OpenClose
import LittleBuddy.Lib.Runs
import Mathlib.Logic.Function.Basic
/-!
# The audio manager

`bt_media_start` and `bt_media_stop` of `app_bt_media_manager.cpp`, for one
phone with IBRT and the media player, without a voice data path, a voice
assistant or the mixing of prompts. They send requests to the audio thread and
record the current stream. Under the condition `Sound` this is the active stream
of the highest priority: a prompt, then the voice, then the music.
-/
open Runs OpenClose

namespace BtApp.MediaManager

/-! ## The manager -/

/-- `BT_STREAM_SBC`, `BT_STREAM_MEDIA` and `BT_STREAM_VOICE`. -/
inductive Stream
  | sbc | media | voice
  deriving DecidableEq

/-- The phone; `none` of `Option DeviceId` is `BT_DEVICE_NUM`. -/
inductive DeviceId
  | id1
  deriving DecidableEq

/-- `bt_meida`, with the bits of `media_active[0]`, and the requests sent to the
audio thread. All three streams go out, so that `curr_active_media` is one of
them or 0. -/
structure Sys where
  media_active : Stream → Bool
  media_curr_sbc : Option DeviceId
  media_curr_sco : Option DeviceId
  curr_active_media : Option Stream
  log : List (Req Stream)

/-- What the manager asks the call control, the streams, the audio list, the
player and the ring merge. -/
structure Env where
  btapp_hfp_is_call_active : Bool
  btapp_hfp_incoming_calls : Bool
  app_bt_stream_isrun : Bool
  app_audio_list_playback_exist : Bool
  /-- The prompt that plays is a number of an incoming call. -/
  incomingNumber : Bool
  /-- The prompt is a warning that is merged into the music. -/
  warningMerged : Bool
  app_ring_merge_isrun : Bool

namespace Sys

/-- `app_audio_sendrequest`; `Req.keeps` stands for `APP_BT_SETTING_SETUP`. -/
def sendrequest (r : Req Stream) (s : Sys) : Sys := { s with log := s.log ++ [r] }

/-- `bt_media_set_media_type`. -/
def setMediaType (t : Stream) (s : Sys) : Sys := { s with media_active := Function.update s.media_active t true }

/-- `bt_media_clear_media_type`. -/
def clearMediaType (t : Stream) (s : Sys) : Sys := { s with media_active := Function.update s.media_active t false }

/-- `bt_media_set_current_media` and `bt_media_clear_current_media`. -/
def setCurrentMedia (o : Option Stream) (s : Sys) : Sys := { s with curr_active_media := o }

end Sys

/-- `bt_media_get_active_sbc_device`. -/
def btMediaGetActiveSbcDevice (s : Sys) : Option DeviceId := if s.media_active .sbc then s.media_curr_sbc else none

/-! ## Starting -/

def startSbc (s : Sys) : Sys :=
  let media_pre_sbc := s.media_curr_sbc
  let s := if s.media_curr_sbc = none then { s with media_curr_sbc := some .id1 } else s
  if s.media_active .media then s
  else if s.media_active .voice then s
  else if media_pre_sbc ≠ s.media_curr_sbc then
    ((s.setCurrentMedia (some .sbc)).sendrequest .keeps).sendrequest (.opens .sbc)
  else s

/-- `none` where the assertion fails. -/
def startMedia (env : Env) (s : Sys) : Option Sys :=
  if env.app_audio_list_playback_exist then
    some (if s.curr_active_media = some .media then s else s.clearMediaType .media)
  else if s.media_active .voice then
    if s.curr_active_media = some .voice then
      if (env.btapp_hfp_is_call_active ∧ env.btapp_hfp_incoming_calls = false) ∨ env.app_bt_stream_isrun then
        some (s.clearMediaType .media)
      else
        some (((s.setCurrentMedia (some .media)).sendrequest (.closes .voice)).sendrequest (.opens .media))
    else if s.curr_active_media = some .media then
      some ((s.setCurrentMedia (some .media)).sendrequest (.opens .media))
    else some (s.clearMediaType .media)
  else if env.btapp_hfp_is_call_active then
    some ((s.setCurrentMedia (some .media)).sendrequest (.opens .media))
  else if s.media_active .sbc then
    if s.curr_active_media = some .sbc then
      if env.warningMerged then some (s.clearMediaType .media)
      else some (((s.sendrequest (.closes .sbc)).setCurrentMedia (some .media)).sendrequest (.opens .media))
    else if s.curr_active_media = some .media then some (s.sendrequest (.opens .media))
    else if s.curr_active_media = none then some (s.sendrequest (.opens .media))
    else none
  else some ((s.setCurrentMedia (some .media)).sendrequest (.opens .media))

def startVoice (env : Env) (s : Sys) : Sys :=
  let s := { s with media_curr_sco := some .id1 }
  if s.media_active .media then
    if s.media_active .voice then
      if s.curr_active_media = some .media then
        if env.incomingNumber then
          (((s.sendrequest (.closes .media)).clearMediaType .media).setCurrentMedia (some .voice)).sendrequest (.opens .voice)
        else s
      else s
    else s
  else if s.media_active .sbc then
    let s := if s.curr_active_media = some .sbc then s.sendrequest (.closes .sbc) else s
    (s.setCurrentMedia (some .voice)).sendrequest (.opens .voice)
  else if s.curr_active_media = some .voice then s
  else (s.setCurrentMedia (some .voice)).sendrequest (.opens .voice)

/-- `bt_media_start`. -/
def btMediaStart (t : Stream) (env : Env) (s : Sys) : Option Sys :=
  let s := s.setMediaType t
  match t with
  | .sbc => some (startSbc s)
  | .media => startMedia env s
  | .voice => some (startVoice env s)

/-! ## Stopping -/

def stopSbc (env : Env) (s : Sys) : Sys :=
  if env.app_ring_merge_isrun then s
  else
    let media_pre_sbc := s.media_curr_sbc
    let s := s.clearMediaType .sbc
    let s := if s.curr_active_media = some .sbc then (s.sendrequest (.closes .sbc)).setCurrentMedia none else s
    let s := if s.media_active .sbc then s else { s with media_curr_sbc := none }
    if s.media_active .voice then s
    else if s.media_active .media then s
    else if s.media_active .sbc then
      if media_pre_sbc ≠ s.media_curr_sbc then
        ((s.setCurrentMedia (some .sbc)).sendrequest .keeps).sendrequest (.opens .sbc)
      else s
    else s

def stopMedia (env : Env) (s : Sys) : Sys :=
  let s := s.clearMediaType .media
  if s.media_active .media then s
  else if s.media_active .voice then
    if s.curr_active_media = some .voice then s
    else if s.curr_active_media = some .media then
      if s.media_curr_sco ≠ none then
        ((s.setMediaType .voice).setCurrentMedia (some .voice)).sendrequest (.opens .voice)
      else s
    else s
  else if env.btapp_hfp_is_call_active then s
  else if s.media_active .sbc then
    let s := if btMediaGetActiveSbcDevice s ≠ none then s.setMediaType .sbc else s
    ((s.setCurrentMedia (some .sbc)).sendrequest .keeps).sendrequest (.opens .sbc)
  else s.setCurrentMedia none

def stopVoice (env : Env) (s : Sys) : Sys :=
  if s.media_active .voice = false ∨ s.curr_active_media ≠ some .voice then s.clearMediaType .voice
  else if env.app_ring_merge_isrun then s
  else
    let s := { s with media_curr_sco := none }.clearMediaType .voice
    if s.media_active .media then
      if s.curr_active_media = some .media then s
      else if s.curr_active_media = some .voice then
        if s.media_active .voice then s else s.sendrequest (.closes .voice)
      else if s.curr_active_media = some .sbc then
        if s.media_active .sbc then s else s.sendrequest (.closes .sbc)
      else s
    else if s.media_active .voice then s
    else if env.btapp_hfp_is_call_active then
      let s := ((s.setCurrentMedia none).sendrequest (.closes .voice)).clearMediaType .voice
      if btMediaGetActiveSbcDevice s ≠ none then
        ((s.setCurrentMedia (some .sbc)).sendrequest .keeps).sendrequest (.opens .sbc)
      else s
    else if s.media_active .sbc then
      if btMediaGetActiveSbcDevice s ≠ none then
        (((s.sendrequest (.closes .voice)).setCurrentMedia (some .sbc)).sendrequest .keeps).sendrequest (.opens .sbc)
      else s
    else (s.setCurrentMedia none).sendrequest (.closes .voice)

/-- `bt_media_stop`. -/
def btMediaStop (t : Stream) (env : Env) (s : Sys) : Sys :=
  if s.media_active t = false ∧ s.curr_active_media ≠ some t then s
  else
    match t with
    | .sbc => stopSbc env s
    | .media => stopMedia env s
    | .voice => stopVoice env s

/-! ## Requests -/

inductive Event
  | start (t : Stream) (env : Env)
  | stop (t : Stream) (env : Env)

/-- A prompt is stopped by the audio thread, when it carries out the request to
close the playback that the player has sent. -/
def step (e : Event) (s : Sys) : Option Sys :=
  match e with
  | .start t env => btMediaStart t env s
  | .stop .media env => some (btMediaStop .media env (s.sendrequest (.closes .media)))
  | .stop t env => some (btMediaStop t env s)

/-- `app_audio_manager_open`. -/
def Init (s : Sys) : Prop :=
  s.media_active = (fun _ => false) ∧ s.media_curr_sbc = none ∧ s.media_curr_sco = none ∧ s.curr_active_media = none ∧ s.log = []

/-- At no time two streams were requested open, and the current stream is the one
that was requested last and not closed since. -/
structure Agrees (s : Sys) : Prop where
  exclusive : Exclusive s.log
  current : ∀ t, s.curr_active_media = some t ↔ Latest t s.log

/-- In a call without the voice stream, no prompt starts over the music and none ends. -/
def Sound (e : Event) (s : Sys) : Prop :=
  match e with
  | .start .media env => env.btapp_hfp_is_call_active → s.media_active .voice = false →
      s.curr_active_media = some .sbc → env.app_audio_list_playback_exist = true
  | .stop .media env => env.btapp_hfp_is_call_active → s.media_active .voice = false →
      s.media_active .media = false ∧ s.curr_active_media ≠ some .media
  | _ => True

end BtApp.MediaManager
