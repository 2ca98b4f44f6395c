import Mathlib.Algebra.Group.Nat.Defs
import Mathlib.Data.List.Basic
/-!
# Trimming the raw packet list

`a2dp_audio_synchronize_dest_packet_mut` of
`apps/audioplayers/a2dp_decoder/a2dp_decoder.cpp` trims the list only when it
reads the playback status IDLE, which it does at most 50 times, and returns 0
even if it never does. The store path calls it with the status mutex locked, and
the playback handler with the status set to BUSY.
-/

namespace A2dp.Trim

/-! ## The code -/

/-- `enum A2DP_AUDIO_DECODER_STATUS`. -/
inductive DecoderStatus where
  | null | ready | start | stop
  deriving DecidableEq

/-- `enum A2DP_AUDIO_DECODER_PLAYBACK_STATUS`. -/
inductive PlaybackStatus where
  | idle | busy
  deriving DecidableEq

/-- What of `a2dp_audio_context` is used here. -/
structure Audio (α : Type) where
  audio_decoder_status : DecoderStatus
  playback_status : PlaybackStatus
  input_raw_packet_list : List α

variable {α : Type}

/-- The loop of `a2dp_audio_sbc_synchronize_dest_packet_mut`, which removes first
and compares then. -/
def removeLoop (packet_mut : Nat) : List α → List α
  | [] => []
  | _ :: list => if list.length > packet_mut then removeLoop packet_mut list else list

/-- `a2dp_audio_sbc_synchronize_dest_packet_mut`. -/
def sbcSynchronizeDestPacketMut (packet_mut : UInt16) (list : List α) : List α :=
  if list.length > packet_mut.toNat then removeLoop packet_mut.toNat list else list

section
-- what the other threads do in the yield of a turn
variable (others : Nat → Audio α → Audio α)

/-- The loop of `a2dp_audio_synchronize_dest_packet_mut`, from a turn on with
`cnt` to go. -/
def synchronizeLoop (mtu : UInt32) (turn : Nat) : Nat → Audio α → Audio α
  | 0, s => s
  | cnt + 1, s =>
    if s.playback_status = .idle then
      { s with input_raw_packet_list := sbcSynchronizeDestPacketMut mtu.toUInt16 s.input_raw_packet_list }
    else synchronizeLoop mtu (turn + 1) cnt (others turn s)

/-- The number of turns. -/
def turns : Nat := 50

/-- `a2dp_audio_synchronize_dest_packet_mut`. -/
def synchronizeDestPacketMut (mtu : UInt32) (s : Audio α) : Int × Audio α :=
  if s.audio_decoder_status = .start then (0, synchronizeLoop others mtu 0 turns s) else (-1, s)

/-! ## What it should do -/

/-- The state before a turn of the loop. -/
def before (s : Audio α) : Nat → Audio α
  | 0 => s
  | turn + 1 => others turn (before s turn)

/-- The first turn that finds the playback idle. -/
def idleTurn (s : Audio α) : Option Nat :=
  (List.range turns).find? fun turn => decide ((before others s turn).playback_status = .idle)

/-- Where 0 is returned, the list is what it was when the loop ended, less all
but its `mtu` newest entries. -/
def Synchronized (mtu : UInt32) (s : Audio α) : Prop :=
  let r := synchronizeDestPacketMut others mtu s
  r.1 = 0 → let list := (before others s ((idleTurn others s).getD turns)).input_raw_packet_list
    r.2.input_raw_packet_list.length ≤ mtu.toNat ∧
      r.2.input_raw_packet_list = list.drop (list.length - mtu.toNat)

/-- The decoder is not started; or the playback is found idle, and the list is short
or 16 bits hold `mtu`; or it never is, and the list is short in the end. -/
def InTime (mtu : UInt32) (s : Audio α) : Prop :=
  s.audio_decoder_status = .start →
    match idleTurn others s with
    | some turn => mtu.toNat < 2 ^ 16 ∨
        (before others s turn).input_raw_packet_list.length ≤ mtu.toNat % 2 ^ 16
    | none => (before others s turns).input_raw_packet_list.length ≤ mtu.toNat

/-- The two callers. Neither's status is changed by others while it waits. -/
inductive Caller where
  /-- `a2dp_audio_store_packet` holds the mutex that `a2dp_audio_set_playback_status` takes. -/
  | storePacket
  /-- `a2dp_audio_playback_handler` has set the status to BUSY, and sets it back in the end. -/
  | playbackHandler

def Caller.Calls (others : Nat → Audio α → Audio α) (s : Audio α) : Caller → Prop
  | .storePacket => ∀ turn s, (others turn s).playback_status = s.playback_status
  | .playbackHandler => s.playback_status = .busy ∧ ∀ turn s, (others turn s).playback_status = s.playback_status

end

/-! ## The loops -/

variable {others : Nat → Audio α → Audio α} {s : Audio α} {mtu : UInt32}

theorem removeLoop_eq {packet_mut : Nat} {list : List α} (h : packet_mut < list.length) :
    removeLoop packet_mut list = list.drop (list.length - packet_mut) := by
  induction list with
  | nil => cases h
  | cons a list ih =>
    rw [removeLoop, List.length_cons]
    by_cases hmore : list.length > packet_mut
    · have hone : list.length + 1 - packet_mut = list.length - packet_mut + 1 := by omega
      rw [if_pos hmore, ih hmore, hone, List.drop_succ_cons]
    · rw [List.length_cons] at h
      have hone : list.length + 1 - packet_mut = 0 + 1 := by omega
      rw [if_neg hmore, hone, List.drop_succ_cons, List.drop_zero]

theorem sbcSynchronizeDestPacketMut_eq (packet_mut : UInt16) (list : List α) :
    sbcSynchronizeDestPacketMut packet_mut list = list.drop (list.length - packet_mut.toNat) := by
  rw [sbcSynchronizeDestPacketMut]
  by_cases h : list.length > packet_mut.toNat
  · rw [if_pos h, removeLoop_eq h]
  · rw [if_neg h, Nat.sub_eq_zero_of_le (Nat.le_of_not_lt h), List.drop_zero]

variable (others s mtu) in
/-- How the loop ends, from a turn on: at the first turn that finds the playback
idle, or with the state behind all turns. -/
theorem synchronizeLoop_eq (turn cnt : Nat) :
    synchronizeLoop others mtu turn cnt (before others s turn) =
      match (List.range' turn cnt).find? fun k => decide ((before others s k).playback_status = .idle) with
      | some k => { before others s k with
          input_raw_packet_list :=
            sbcSynchronizeDestPacketMut mtu.toUInt16 (before others s k).input_raw_packet_list }
      | none => before others s (turn + cnt) := by
  induction cnt generalizing turn with
  | zero => rfl
  | succ cnt ih =>
    rw [synchronizeLoop, List.range'_succ, List.find?_cons]
    by_cases hidle : (before others s turn).playback_status = .idle
    · rw [if_pos hidle]
      simp only [hidle, decide_true]
    · have hnext : others turn (before others s turn) = before others s (turn + 1) := rfl
      rw [if_neg hidle, hnext, ih (turn + 1)]
      simp only [hidle, decide_false]
      rw [Nat.add_right_comm, Nat.add_assoc]

/-- A list is the newest part of itself that fits in 16 bits, exactly if it is short or
these are all bits. -/
theorem newest_iff (mtu : UInt32) (list : List α) :
    ((list.drop (list.length - mtu.toUInt16.toNat)).length ≤ mtu.toNat ∧
      list.drop (list.length - mtu.toUInt16.toNat) = list.drop (list.length - mtu.toNat)) ↔
    mtu.toNat < 2 ^ 16 ∨ list.length ≤ mtu.toNat % 2 ^ 16 := by
  have hmod : mtu.toUInt16.toNat = mtu.toNat % 2 ^ 16 := UInt32.toNat_toUInt16 mtu
  have hle := Nat.mod_le mtu.toNat (2 ^ 16)
  rw [hmod]
  constructor
  · rintro ⟨-, heq⟩
    have hlen := congrArg List.length heq
    rw [List.length_drop, List.length_drop] at hlen
    by_contra hnot
    rw [not_or] at hnot
    have hlt := Nat.mod_lt mtu.toNat (show 0 < 2 ^ 16 by decide)
    omega
  · rintro (hsmall | hshort)
    · rw [Nat.mod_eq_of_lt hsmall, List.length_drop]
      exact ⟨by omega, rfl⟩
    · rw [Nat.sub_eq_zero_of_le hshort, Nat.sub_eq_zero_of_le (Nat.le_trans hshort hle), List.drop_zero]
      exact ⟨Nat.le_trans hshort hle, rfl⟩

/-- With a status that nobody changes, the first turn decides. -/
theorem idleTurn_of_same (h : ∀ turn s, (others turn s).playback_status = s.playback_status) :
    idleTurn others s = if s.playback_status = .idle then some 0 else none := by
  have hsame : ∀ turn, (before others s turn).playback_status = s.playback_status := by
    intro turn
    induction turn with
    | zero => rfl
    | succ turn ih => rw [before, h, ih]
  simp only [idleTurn, hsame]
  by_cases hidle : s.playback_status = .idle
  · simp only [hidle, decide_true, if_true]
    rfl
  · rw [if_neg hidle]
    simp only [hidle, decide_false]
    exact List.find?_eq_none.2 fun _ _ => Bool.false_ne_true

/-- For all entries, numbers, states and other threads: the call does what it should
exactly if it is in time; that is, in the store path, if the playback is idle at
the call or the list is short in the end, and in the playback handler, if the list
is short in the end. -/
theorem synchronized_iff (others : Nat → Audio α → Audio α) (mtu : UInt32) (s : Audio α) :
    (Synchronized others mtu s ↔ InTime others mtu s) ∧
    ∀ caller : Caller, caller.Calls others s → (InTime others mtu s ↔
      (s.audio_decoder_status = .start →
        if s.playback_status = .idle then mtu.toNat < 2 ^ 16 ∨ s.input_raw_packet_list.length ≤ mtu.toNat % 2 ^ 16
        else (before others s turns).input_raw_packet_list.length ≤ mtu.toNat)) ∧
      (caller = .playbackHandler → s.playback_status ≠ .idle) := by
  constructor
  · unfold Synchronized InTime synchronizeDestPacketMut
    by_cases hstart : s.audio_decoder_status = .start
    · rw [if_pos hstart]
      have hloop := synchronizeLoop_eq others s mtu 0 turns
      rw [show before others s 0 = s from rfl, ← List.range_eq_range', Nat.zero_add] at hloop
      dsimp only
      rw [hloop, show (List.range turns).find? (fun k => decide ((before others s k).playback_status = .idle)) =
        idleTurn others s from rfl]
      simp only [hstart, true_implies]
      cases hturn : idleTurn others s with
      | none =>
        simp only [Option.getD_none]
        constructor
        · exact fun h => h.1
        · exact fun h => ⟨h, by rw [Nat.sub_eq_zero_of_le h, List.drop_zero]⟩
      | some turn =>
        simp only [Option.getD_some, sbcSynchronizeDestPacketMut_eq]
        exact newest_iff mtu _
    · rw [if_neg hstart]
      exact ⟨fun _ h => absurd h hstart, fun _ h => absurd (show (-1 : Int) = 0 from h) (by decide)⟩
  · intro caller hcaller
    have hsame : ∀ turn s, (others turn s).playback_status = s.playback_status := by
      cases caller with
      | storePacket => exact hcaller
      | playbackHandler => exact hcaller.2
    constructor
    · unfold InTime
      rw [idleTurn_of_same hsame]
      by_cases hidle : s.playback_status = .idle
      · simp only [hidle, if_true]
        rfl
      · simp only [hidle, if_false]
    · rintro rfl
      rw [hcaller.1]
      exact PlaybackStatus.noConfusion

/-- In the playback handler nothing is trimmed: of three entries, where one may be
kept, three are left, and 0 is returned. -/
theorem never_idle : ∃ (others : Nat → Audio Nat → Audio Nat) (s : Audio Nat), Caller.playbackHandler.Calls others s ∧
    (synchronizeDestPacketMut others 1 s).1 = 0 ∧
    (synchronizeDestPacketMut others 1 s).2.input_raw_packet_list = [1, 2, 3] := by
  refine ⟨fun _ s => s, ⟨.start, .busy, [1, 2, 3]⟩, ⟨rfl, fun _ _ => rfl⟩, rfl, rfl⟩

end A2dp.Trim
