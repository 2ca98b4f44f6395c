import LittleBuddy.Lib.Runs
import Mathlib.Tactic.Common
/-!
# Control of the local player

`rb_ctl_handle_event` of `apps/audioplayers/rbplay/rb_ctl.cpp` takes events from a
mailbox, and posts some to itself. One handle stands for the file that is played;
the playlist is a file too, which is opened and closed for each item.

`app_rbplay_get_playitem` returns `NULL` when the playlist cannot be opened, and
the item is used all the same; what happens then is not defined.
-/
open Runs

namespace RbCtl

/-! ## The code -/

/-- `rb_ctl_status`. -/
inductive Status where
  | idle
  | playing
  | suspend
  deriving DecidableEq

/-- The events, with `arg` where it is used; and for the specification, with a request to delete a file, the status when
it was handled first. -/
inductive Msg where
  | play
  | stop
  | suspend
  | resume
  | playNext (arg : UInt32)
  | playIdx (arg : UInt32)
  | changeIdle
  | delFile (arg : UInt32) (first : Option Status)
  deriving DecidableEq

inductive FileOp where
  | opened (handle : Int)
  | closed (handle : Int)
  deriving DecidableEq

/-- What `open` returns for the playlist and for the song, and whether `get_metadata` succeeds. -/
structure Results where
  playlist : Int
  file : Int
  metadata : Bool

/-- The context, `prev_status` once it is initialized, and the mailbox; and for the specification the files that were
opened and closed, the indices of the songs that were started, for each file that was deleted whether the player was
playing when the request was handled first and whether it is told to play again, and whether `NULL` was used. -/
structure Sys where
  status : Status
  curr_song_idx : UInt16
  file_handle : Int
  prev_status : Option Status
  mailbox : List Msg
  files : List FileOp
  started : List UInt16
  deleted : List (Bool × Bool)
  undefined : Bool

/-- In front of the loop of `rb_ctl_thread`: the context is filled with 0. -/
def init : Sys := ⟨.idle, 0, 0, none, [], [], [], [], false⟩

/-- `rb_thread_post_msg`. -/
def post (m : Msg) (s : Sys) : Sys := { s with mailbox := s.mailbox ++ [m] }

section Code

variable (total_songs : UInt16) (r : Results)

/-- `app_rbplay_get_playitem`, and whether it returns an item. -/
def getPlayitem (idx : Nat) (s : Sys) : Sys × Bool :=
  if idx ≥ total_songs.toNat then (s, false)
  else if r.playlist ≤ 0 then (s, false)
  else ({ s with files := s.files ++ [.opened r.playlist, .closed r.playlist] }, true)

/-- `rb_ctl_parse_file`. -/
def parseFile (s : Sys) : Sys × Bool :=
  let s := { s with file_handle := r.file }
  if r.file ≤ 0 then (s, false)
  else if !r.metadata then ({ s with files := s.files ++ [.opened r.file, .closed r.file] }, false)
  else ({ s with files := s.files ++ [.opened r.file] }, true)

/-- `rb_ctl_stop_play`. -/
def stopPlay (s : Sys) : Sys :=
  { s with files := if s.file_handle ≠ -1 then s.files ++ [.closed s.file_handle] else s.files, file_handle := -1 }

/-- `rb_ctl_sync_stop_play`, which closes the file once more if there is one. -/
def syncStopPlay (s : Sys) : Sys := stopPlay (stopPlay s)

/-- The song is started if it can be parsed; else the next one is looked for. -/
def playFile (s : Sys) : Sys :=
  if (parseFile r s).2 then { (parseFile r s).1 with status := .playing, started := s.started ++ [s.curr_song_idx] }
  else post (.playNext 1) (parseFile r s).1

/-- `RB_MODULE_EVT_PLAY` in the status `RB_CTL_IDLE`. -/
def start (s : Sys) : Sys :=
  if total_songs > 0 then
    let item := getPlayitem total_songs r s.curr_song_idx.toNat s
    playFile r { item.1 with undefined := item.1.undefined || !item.2 }
  else s

/-- The song before or behind the current one. -/
def nextIdx (arg : UInt32) (idx : UInt16) : UInt16 :=
  if arg = 0 then if idx - 1 = 0xffff then total_songs - 1 else idx - 1
  else if idx + 1 ≥ total_songs then 0 else idx + 1

/-- A song that plays is stopped before another one is played. -/
def stopFirst (s : Sys) : Sys := if s.status = .idle then s else post .stop s

/-- `rb_ctl_handle_event`. -/
def handleEvent (s : Sys) : Msg → Sys
  | .play =>
    match s.status with
    | .idle => start total_songs r s
    | .suspend => post .resume s
    | .playing => s
  | .stop => if s.status = .idle then s else { syncStopPlay s with status := .idle }
  | .suspend => if s.status = .playing then { s with status := .suspend } else s
  | .resume => if s.status = .suspend then { s with status := .playing } else s
  | .playNext arg => post .play { stopFirst s with curr_song_idx := nextIdx total_songs arg s.curr_song_idx }
  -- the comparison is one of `uint32_t`
  | .playIdx arg =>
    if arg > total_songs.toUInt32 - 1 then s else post .play { stopFirst s with curr_song_idx := arg.toUInt16 }
  | .changeIdle => { stopPlay s with status := .idle }
  | .delFile arg first =>
    let first := first.getD s.status
    -- a static variable, initialized by the first event of all
    let s := { s with prev_status := some (s.prev_status.getD s.status) }
    if s.status ≠ .idle then post (.delFile arg (some first)) (post .stop s)
    else
      let s := (getPlayitem total_songs r arg.toNat s).1
      let again := s.prev_status = some .playing
      let s := { s with deleted := s.deleted ++ [(decide (first = .playing), decide again)] }
      if again then post .play s else s

end Code

inductive Event where
  | post (m : Msg)
  | handle (r : Results)

/-- One event; what is posted has not been handled before. -/
def step (total_songs : UInt16) : Event → Sys → Option Sys
  | .post (.delFile arg _), s => some (post (.delFile arg none) s)
  | .post m, s => some (post m s)
  | .handle r, s =>
    match s.mailbox with
    | [] => none
    | m :: mailbox => some (handleEvent total_songs r { s with mailbox := mailbox } m)

/-! ## What it should do -/

/-- The handle that is open behind some operations, where each one that is opened is closed before the next one is, and
no other one is closed. -/
def openHandle : List FileOp → Option Int → Option (Option Int)
  | [], c => some c
  | .opened h :: ops, none => openHandle ops (some h)
  | .closed h :: ops, some h' => if h = h' then openHandle ops none else none
  | .opened _ :: _, some _ | .closed _ :: _, none => none

/-- What holds in a state of a run. -/
structure Right (total_songs : UInt16) (s : Sys) : Prop where
  started : ∀ idx ∈ s.started, idx < total_songs
  files : openHandle s.files none = some (if s.status = .idle then none else some s.file_handle)
  deleted : ∀ d ∈ s.deleted, d.2 = d.1
  defined : s.undefined = false

section Clean

variable (total_songs : UInt16) (r : Results) (s : Sys)

/-- The playlist can be opened for a song to play; a player that is idle is only set idle where its handle is -1; and a
request to delete a file is handled first while the player plays, if and only if it did at the first request of all. -/
def CleanMsg : Option Msg → Prop
  | some .play => s.status = .idle → total_songs > 0 → 0 < r.playlist
  | some .changeIdle => s.status = .idle → s.file_handle = -1
  | some (.delFile _ none) => ∀ prev ∈ s.prev_status, s.status = .playing ↔ prev = .playing
  | _ => True

instance (m : Option Msg) : Decidable (CleanMsg total_songs r s m) :=
  match m with
  | some .play => inferInstanceAs (Decidable (s.status = .idle → total_songs > 0 → 0 < r.playlist))
  | some .changeIdle => inferInstanceAs (Decidable (s.status = .idle → s.file_handle = -1))
  | some (.delFile _ none) => inferInstanceAs (Decidable (∀ prev ∈ s.prev_status, s.status = .playing ↔ prev = .playing))
  | none | some .stop | some .suspend | some .resume | some (.playNext _) | some (.playIdx _) | some (.delFile _ (some _)) =>
    isTrue trivial

end Clean

def Clean (total_songs : UInt16) : Event → Sys → Prop
  | .post _, _ => True
  | .handle r, s => CleanMsg total_songs r s s.mailbox.head?

instance (total_songs : UInt16) (e : Event) (s : Sys) : Decidable (Clean total_songs e s) :=
  match e with
  | .post _ => isTrue trivial
  | .handle r => inferInstanceAs (Decidable (CleanMsg total_songs r s s.mailbox.head?))

/-! ## Files and indices -/

section Files

theorem openHandle_append (ops ops' : List FileOp) (c : Option Int) :
    openHandle (ops ++ ops') c = (openHandle ops c).bind (openHandle ops') := by
  induction ops generalizing c with
  | nil => rfl
  | cons op ops ih =>
    rw [List.cons_append]
    cases op with
    | opened h =>
      cases c with
      | none => exact ih (some h)
      | some c => rfl
    | closed h =>
      cases c with
      | none => rfl
      | some c =>
        rw [openHandle, openHandle]
        split
        · exact ih none
        · rfl

/-- A file that is opened and closed again. -/
theorem openHandle_visit {ops : List FileOp} (h : openHandle ops none = some none) (handle : Int) :
    openHandle (ops ++ [.opened handle, .closed handle]) none = some none := by
  rw [openHandle_append, h, Option.bind_some, openHandle, openHandle, if_pos rfl]
  rfl

theorem nextIdx_lt {total_songs idx : UInt16} (arg : UInt32) (htotal : 0 < total_songs) (hidx : idx < total_songs) :
    nextIdx total_songs arg idx < total_songs := by
  rw [UInt16.lt_iff_toNat_lt] at htotal hidx
  have hlt := total_songs.toNat_lt
  have hzero : (0 : UInt16).toNat = 0 := rfl
  have hone : (1 : UInt16).toNat = 1 := rfl
  rw [nextIdx]
  split
  · split
    · rw [UInt16.lt_iff_toNat_lt, UInt16.toNat_sub, hone]
      omega
    · rename_i hwrap
      have hpos : idx.toNat ≠ 0 := by
        intro h
        apply hwrap
        rw [← UInt16.toNat_inj, UInt16.toNat_sub, h, hone]
        rfl
      rw [UInt16.lt_iff_toNat_lt, UInt16.toNat_sub, hone]
      omega
  · split
    · rwa [UInt16.lt_iff_toNat_lt]
    · rename_i hlast
      exact UInt16.not_le.mp hlast

theorem toUInt16_lt {total_songs : UInt16} {arg : UInt32} (htotal : 0 < total_songs) (harg : ¬arg > total_songs.toUInt32 - 1) :
    arg.toUInt16 < total_songs := by
  have hlt := total_songs.toNat_lt
  have hone : (1 : UInt32).toNat = 1 := rfl
  have hpos : (0 : UInt16).toNat < total_songs.toNat := UInt16.lt_iff_toNat_lt.mp htotal
  have hzero : (0 : UInt16).toNat = 0 := rfl
  have hle : arg.toNat ≤ (total_songs.toUInt32 - 1).toNat := UInt32.le_iff_toNat_le.mp (UInt32.not_lt.mp harg)
  rw [UInt32.toNat_sub, UInt16.toNat_toUInt32, hone] at hle
  rw [UInt16.lt_iff_toNat_lt, UInt32.toNat_toUInt16]
  omega

end Files

/-! ## Runs -/

section Runs

variable {total_songs : UInt16} {r : Results} {s s' : Sys} {m : Msg}

/-- A request that has been handled agrees with the static variable on whether the player was playing. -/
def Msg.Agrees (prev_status : Option Status) : Msg → Prop
  | .delFile _ (some first) => ∃ prev, prev_status = some prev ∧ (first = .playing ↔ prev = .playing)
  | _ => True

/-- What a run keeps. -/
structure Keeps (total_songs : UInt16) (s : Sys) : Prop where
  right : Right total_songs s
  idx : 0 < total_songs → s.curr_song_idx < total_songs
  handle : s.status ≠ .idle → 0 < s.file_handle
  mailbox : ∀ m ∈ s.mailbox, m.Agrees s.prev_status

theorem Keeps.post (h : Keeps total_songs s) (hm : m.Agrees s.prev_status) : Keeps total_songs (post m s) := by
  refine ⟨⟨h.right.started, h.right.files, h.right.deleted, h.right.defined⟩, h.idx, h.handle, ?_⟩
  intro m' hm'
  rcases List.mem_append.mp hm' with hold | hnew
  · exact h.mailbox m' hold
  · rw [List.mem_singleton.mp hnew]
    exact hm

theorem Keeps.setIdx (h : Keeps total_songs s) {idx : UInt16} (hidx : 0 < total_songs → idx < total_songs) :
    Keeps total_songs { s with curr_song_idx := idx } :=
  ⟨⟨h.right.started, h.right.files, h.right.deleted, h.right.defined⟩, hidx, h.handle, h.mailbox⟩

theorem Keeps.idle_files (h : Keeps total_songs s) (hidle : s.status = .idle) : openHandle s.files none = some none := by
  rw [h.right.files, if_pos hidle]

/-- Between two songs: the file is closed. -/
theorem Keeps.setIdle (h : Keeps total_songs s) {files : List FileOp} {file_handle : Int}
    (hfiles : openHandle files none = some none) :
    Keeps total_songs { s with status := .idle, files := files, file_handle := file_handle } :=
  ⟨⟨h.right.started, hfiles, h.right.deleted, h.right.defined⟩, h.idx, fun hbusy => absurd rfl hbusy, h.mailbox⟩

/-- What plays is stopped: its file is the one that is open. -/
theorem Keeps.closes (h : Keeps total_songs s) (hbusy : s.status ≠ .idle) :
    s.file_handle ≠ -1 ∧ openHandle (s.files ++ [.closed s.file_handle]) none = some none := by
  have hpos := h.handle hbusy
  refine ⟨by omega, ?_⟩
  rw [openHandle_append, h.right.files, if_neg hbusy, Option.bind_some, openHandle, if_pos rfl]
  rfl

theorem getPlayitem_cases (total_songs : UInt16) (r : Results) (idx : Nat) (s : Sys) :
    getPlayitem total_songs r idx s = (s, false) ∧ (total_songs.toNat ≤ idx ∨ r.playlist ≤ 0) ∨
      getPlayitem total_songs r idx s = ({ s with files := s.files ++ [.opened r.playlist, .closed r.playlist] }, true) := by
  rw [getPlayitem]
  by_cases hidx : idx ≥ total_songs.toNat
  · rw [if_pos hidx]
    exact .inl ⟨rfl, .inl hidx⟩
  · rw [if_neg hidx]
    by_cases hlist : r.playlist ≤ 0
    · rw [if_pos hlist]
      exact .inl ⟨rfl, .inr hlist⟩
    · rw [if_neg hlist]
      exact .inr rfl

/-- A song that is opened, and one that is not. -/
theorem parseFile_cases (r : Results) (s : Sys) :
    0 < r.file ∧ parseFile r s = ({ s with file_handle := r.file, files := s.files ++ [.opened r.file] }, true) ∨
      (parseFile r s = ({ s with file_handle := r.file }, false) ∨
        parseFile r s = ({ s with file_handle := r.file, files := s.files ++ [.opened r.file, .closed r.file] }, false)) := by
  rw [parseFile]
  by_cases hfile : r.file ≤ 0
  · rw [if_pos hfile]
    exact .inr (.inl rfl)
  · rw [if_neg hfile]
    cases r.metadata with
    | true => exact .inl ⟨by omega, rfl⟩
    | false => exact .inr (.inr rfl)

/-- A visit of the playlist by an idle player. -/
theorem Keeps.item (h : Keeps total_songs s) (hidle : s.status = .idle) :
    Keeps total_songs { s with files := s.files ++ [.opened r.playlist, .closed r.playlist] } := by
  refine ⟨⟨h.right.started, ?_, h.right.deleted, h.right.defined⟩, h.idx, h.handle, h.mailbox⟩
  rw [if_pos hidle]
  exact openHandle_visit (h.idle_files hidle) r.playlist

theorem Keeps.playFile (h : Keeps total_songs s) (hidle : s.status = .idle) (hidx : s.curr_song_idx < total_songs) :
    Keeps total_songs (playFile r s) := by
  have hnone := h.idle_files hidle
  rw [RbCtl.playFile]
  obtain ⟨hpos, heq⟩ | heq | heq := parseFile_cases r s
  · rw [heq, if_pos rfl]
    refine ⟨⟨?_, ?_, h.right.deleted, h.right.defined⟩, h.idx, fun _ => hpos, h.mailbox⟩
    · intro idx hmem
      rcases List.mem_append.mp hmem with hold | hnew
      · exact h.right.started idx hold
      · rw [List.mem_singleton.mp hnew]
        exact hidx
    · change openHandle (s.files ++ [.opened r.file]) none = some (some r.file)
      rw [openHandle_append, hnone]
      rfl
  · rw [heq, if_neg Bool.false_ne_true]
    refine Keeps.post ⟨⟨h.right.started, ?_, h.right.deleted, h.right.defined⟩, h.idx, fun hbusy => absurd hidle hbusy, h.mailbox⟩
      trivial
    rw [if_pos hidle]
    exact hnone
  · rw [heq, if_neg Bool.false_ne_true]
    refine Keeps.post ⟨⟨h.right.started, ?_, h.right.deleted, h.right.defined⟩, h.idx, fun hbusy => absurd hidle hbusy, h.mailbox⟩
      trivial
    rw [if_pos hidle]
    exact openHandle_visit hnone r.file

theorem Keeps.start (h : Keeps total_songs s) (hidle : s.status = .idle) (hlist : total_songs > 0 → 0 < r.playlist) :
    Keeps total_songs (start total_songs r s) := by
  rw [RbCtl.start]
  split
  · rename_i hsongs
    have hidx := h.idx hsongs
    obtain ⟨-, hnone⟩ | heq := getPlayitem_cases total_songs r s.curr_song_idx.toNat s
    · -- the current index is one of the list, which can be opened
      have := hlist hsongs
      have := UInt16.lt_iff_toNat_lt.mp hidx
      omega
    · have hdefined : (s.undefined || !true) = s.undefined := Bool.or_false _
      simp only [heq, hdefined]
      exact (h.item hidle).playFile hidle hidx
  · exact h

theorem Keeps.stopFirst (h : Keeps total_songs s) : Keeps total_songs (stopFirst s) := by
  rw [RbCtl.stopFirst]
  split
  · exact h
  · exact h.post trivial

/-- `prev_status` is set by the first request, and then stays. -/
theorem Keeps.setPrev (h : Keeps total_songs s) : Keeps total_songs { s with prev_status := some (s.prev_status.getD s.status) } := by
  refine ⟨⟨h.right.started, h.right.files, h.right.deleted, h.right.defined⟩, h.idx, h.handle, ?_⟩
  intro m hm
  have hagrees := h.mailbox m hm
  cases m with
  | delFile arg first =>
    cases first with
    | none => trivial
    | some first =>
      obtain ⟨prev, hprev, hiff⟩ := hagrees
      refine ⟨prev, ?_, hiff⟩
      rw [hprev]
      rfl
  | play | stop | suspend | resume | playNext _ | playIdx _ | changeIdle => trivial

theorem getPlayitem_prev_status (idx : Nat) : (getPlayitem total_songs r idx s).1.prev_status = s.prev_status := by
  obtain ⟨heq, -⟩ | heq := getPlayitem_cases total_songs r idx s
  · rw [heq]
  · rw [heq]

/-- A visit of the playlist, if it can be opened and has the item. -/
theorem Keeps.visit (h : Keeps total_songs s) (hidle : s.status = .idle) {idx : Nat} :
    Keeps total_songs (getPlayitem total_songs r idx s).1 := by
  obtain ⟨heq, -⟩ | heq := getPlayitem_cases total_songs r idx s
  · rw [heq]
    exact h
  · rw [heq]
    exact h.item hidle

/-- The file is deleted, and the player told to play again where it was playing. -/
theorem Keeps.again (h : Keeps total_songs s) {first : Bool} {again : Prop} [Decidable again] (hfirst : first = decide again) :
    Keeps total_songs (if again then RbCtl.post .play { s with deleted := s.deleted ++ [(first, decide again)] }
      else { s with deleted := s.deleted ++ [(first, decide again)] }) := by
  have hdeleted : Keeps total_songs { s with deleted := s.deleted ++ [(first, decide again)] } := by
    refine ⟨⟨h.right.started, h.right.files, ?_, h.right.defined⟩, h.idx, h.handle, h.mailbox⟩
    intro d hd
    rcases List.mem_append.mp hd with hold | hnew
    · exact h.right.deleted d hold
    · rw [List.mem_singleton.mp hnew]
      exact hfirst.symm
  split
  · exact hdeleted.post (m := .play) trivial
  · exact hdeleted

theorem Keeps.delFile (h : Keeps total_songs s) {arg : UInt32} {first : Option Status}
    (hfirst : (Msg.delFile arg first).Agrees s.prev_status)
    (hclean : first = none → ∀ prev ∈ s.prev_status, s.status = .playing ↔ prev = .playing) :
    Keeps total_songs (handleEvent total_songs r s (.delFile arg first)) := by
  have hiff : first.getD s.status = .playing ↔ s.prev_status.getD s.status = .playing := by
    cases first with
    | none =>
      cases hprev : s.prev_status with
      | none => exact Iff.rfl
      | some prev => exact hclean rfl prev hprev
    | some first =>
      obtain ⟨prev, hprev, hiff⟩ := hfirst
      rw [hprev]
      exact hiff
  have hset := h.setPrev
  rw [handleEvent]
  dsimp only
  split
  · exact (hset.post (m := .stop) trivial).post ⟨_, rfl, hiff⟩
  · rename_i hidle
    have hidle : s.status = .idle := Decidable.not_not.mp hidle
    refine Keeps.again (Keeps.visit hset hidle) ?_
    rw [getPlayitem_prev_status]
    simp only [Option.some_inj]
    exact decide_eq_decide.mpr hiff

/-- A file goes on being open. -/
theorem Keeps.setBusy (h : Keeps total_songs s) (hbusy : s.status ≠ .idle) {t : Status} (ht : t ≠ .idle) :
    Keeps total_songs { s with status := t } := by
  refine ⟨⟨h.right.started, ?_, h.right.deleted, h.right.defined⟩, h.idx, fun _ => h.handle hbusy, h.mailbox⟩
  have hfiles := h.right.files
  rw [if_neg hbusy] at hfiles
  exact (if_neg ht).symm ▸ hfiles

/-- The player is stopped, whatever it does; in idle no handle is left. -/
theorem Keeps.stopIdle (h : Keeps total_songs s) (hclean : s.status = .idle → s.file_handle = -1) :
    openHandle (stopPlay s).files none = some none := by
  by_cases hidle : s.status = .idle
  · rw [stopPlay, if_neg (fun hne => hne (hclean hidle))]
    exact h.idle_files hidle
  · obtain ⟨hne, hclosed⟩ := h.closes hidle
    rw [stopPlay, if_pos hne]
    exact hclosed

/-- One event, without its message. -/
theorem Keeps.handleEvent (h : Keeps total_songs s) (hm : m.Agrees s.prev_status) (hclean : CleanMsg total_songs r s (some m)) :
    Keeps total_songs (handleEvent total_songs r s m) := by
  cases m with
  | play =>
    rw [RbCtl.handleEvent]
    split
    · rename_i hidle
      exact h.start hidle (hclean hidle)
    · exact h.post trivial
    · exact h
  | stop =>
    rw [RbCtl.handleEvent]
    split
    · exact h
    · rename_i hbusy
      obtain ⟨hne, hclosed⟩ := h.closes hbusy
      have hfiles : openHandle (syncStopPlay s).files none = some none := by
        have hnone : ¬(stopPlay s).file_handle ≠ -1 := fun hagain => hagain rfl
        rw [syncStopPlay, stopPlay, if_neg hnone, stopPlay, if_pos hne]
        exact hclosed
      exact h.setIdle hfiles
  | suspend =>
    rw [RbCtl.handleEvent]
    split
    · rename_i hplaying
      exact h.setBusy (by rw [hplaying]; decide) (by decide)
    · exact h
  | resume =>
    rw [RbCtl.handleEvent]
    split
    · rename_i hsuspended
      exact h.setBusy (by rw [hsuspended]; decide) (by decide)
    · exact h
  | playNext arg =>
    refine (@Keeps.setIdx _ _ h.stopFirst (nextIdx total_songs arg s.curr_song_idx) ?_).post trivial
    intro htotal
    exact nextIdx_lt arg htotal (h.idx htotal)
  | playIdx arg =>
    rw [RbCtl.handleEvent]
    split
    · exact h
    · rename_i harg
      exact (@Keeps.setIdx _ _ h.stopFirst arg.toUInt16 fun htotal => toUInt16_lt htotal harg).post trivial
  | changeIdle => exact h.setIdle (h.stopIdle hclean)
  | delFile arg first =>
    refine h.delFile hm ?_
    rintro rfl
    exact hclean

theorem step_keeps {e : Event} (h : Keeps total_songs s) (hclean : Clean total_songs e s)
    (hstep : step total_songs e s = some s') : Keeps total_songs s' := by
  cases e with
  | post m =>
    cases m with
    | play | stop | suspend | resume | playNext _ | playIdx _ | changeIdle | delFile _ _ =>
      cases Option.some_inj.mp hstep
      exact h.post trivial
  | handle r =>
    rw [step] at hstep
    split at hstep
    · cases hstep
    · rename_i m mailbox hmailbox
      cases Option.some_inj.mp hstep
      have hmem : ∀ m' ∈ mailbox, m' ∈ s.mailbox := fun m' hm' => hmailbox ▸ List.mem_cons_of_mem m hm'
      have htaken : Keeps total_songs { s with mailbox := mailbox } :=
        ⟨⟨h.right.started, h.right.files, h.right.deleted, h.right.defined⟩, h.idx, h.handle,
          fun m' hm' => h.mailbox m' (hmem m' hm')⟩
      have hclean : CleanMsg total_songs r s (some m) := by
        rw [Clean, hmailbox] at hclean
        exact hclean
      refine htaken.handleEvent (h.mailbox m (hmailbox ▸ List.mem_cons_self)) ?_
      cases m with
      | delFile arg first =>
        cases first with
        | none | some _ => exact hclean
      | play | stop | suspend | resume | playNext _ | playIdx _ | changeIdle => exact hclean

end Runs

/-- In a run in which the playlist can be opened for each song, an idle player is set idle only where its handle is -1, and
the requests to delete a file find the player playing all or none, songs, files and requests are handled right. -/
theorem right_of_run {total_songs : UInt16} {s : Sys} {es : List Event}
    (h : Run (step total_songs) (Clean total_songs) (· = init) s es) : Right total_songs s := by
  refine (h.inv (Keeps total_songs) ?_ fun e s s' hkeeps hclean hstep => step_keeps hkeeps hclean hstep).right
  rintro s rfl
  exact ⟨⟨List.forall_mem_nil _, rfl, List.forall_mem_nil _, rfl⟩, fun htotal => htotal, fun hbusy => absurd rfl hbusy,
    List.forall_mem_nil _⟩

/-- The first of two songs cannot be parsed, the second one plays, and is deleted. -/
theorem right_of_run_delete :
    ∃ s, Run (step 2) (Clean 2) (· = init) s
        [.post .play, .handle ⟨3, 4, false⟩, .handle ⟨3, 4, true⟩, .handle ⟨3, 4, true⟩, .post (.delFile 1 none),
          .handle ⟨3, 4, true⟩, .handle ⟨3, 4, true⟩, .handle ⟨3, 4, true⟩] ∧
      s.deleted = [(true, true)] ∧ Right 2 s := by
  obtain ⟨s, hrun, hgood⟩ := exists_run_of_check (step 2) (Clean 2) (· = init) (some init)
    [.post .play, .handle ⟨3, 4, false⟩, .handle ⟨3, 4, true⟩, .handle ⟨3, 4, true⟩, .post (.delFile 1 none),
      .handle ⟨3, 4, true⟩, .handle ⟨3, 4, true⟩, .handle ⟨3, 4, true⟩] (fun s => decide (s.deleted = [(true, true)]))
    (fun _ h => (Option.some_inj.mp h).symm) (by decide)
  exact ⟨s, hrun, of_decide_eq_true hgood, right_of_run hrun⟩

/-- The only song cannot be parsed, and the player is set idle: its file is closed once more. -/
theorem closed_twice :
    ∃ s, Run (step 1) (fun _ _ => True) (· = init) s
        [.post .play, .handle ⟨3, 4, false⟩, .post .changeIdle, .handle ⟨3, 4, true⟩, .handle ⟨3, 4, true⟩] ∧
      s.files = [.opened 3, .closed 3, .opened 4, .closed 4, .closed 4] ∧ ¬Right 1 s := by
  obtain ⟨s, hrun, hgood⟩ := exists_run_of_check (step 1) (fun _ _ => True) (· = init) (some init)
    [.post .play, .handle ⟨3, 4, false⟩, .post .changeIdle, .handle ⟨3, 4, true⟩, .handle ⟨3, 4, true⟩]
    (fun s => decide (s.files = [.opened 3, .closed 3, .opened 4, .closed 4, .closed 4]))
    (fun _ h => (Option.some_inj.mp h).symm) (by decide)
  have hfiles := of_decide_eq_true hgood
  refine ⟨s, hrun, hfiles, fun hright => ?_⟩
  have hopen := hright.files
  rw [hfiles] at hopen
  cases hopen

end RbCtl
