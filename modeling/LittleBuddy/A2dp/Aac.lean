import LittleBuddy.Lib.Runs
import Mathlib.Algebra.Group.Nat.Defs
import Mathlib.Data.List.Basic
/-!
# Access units from AAC media packets

`a2dp_audio_aac_lc_store_packet` of `apps/audioplayers/a2dp_decoder/a2dp_decoder_aac_lc.cpp`
keeps each packet back until the next one arrives. If that one begins with the
same two bytes, the packet kept back was a whole access unit and goes to the raw
packet list; otherwise the new packet is its second part. When packets seem to
be missing, copies of a frame are put in their place.
-/
open Runs

namespace A2dp.Aac

/-! ## The code -/

/-- `AAC_READBUF_SIZE` and `AAC_OUTPUT_FRAME_SAMPLES`. -/
abbrev readbufSize : Nat := 900
abbrev outputFrameSamples : Nat := 1024

/-- `a2dp_audio_aac_decoder_frame_t`, with the first `aac_buffer_len` bytes of its buffer. -/
structure Frame where
  sequenceNumber : Nat
  timestamp : Nat
  aac_buffer : List UInt8
  deriving DecidableEq

/-- `btif_media_header_t`. -/
structure Header where
  sequenceNumber : Nat
  timestamp : Nat

/-- `input_raw_packet_list`, `aac_decoder_frame_reorder_p`, and the sequence
number and timestamp of `aac_decoder_last_valid_frame` once it is ready. -/
structure State where
  list : List Frame
  reorder : Option Frame
  lastValid : Option (Nat × Nat)

/-- `a2dp_audio_get_passed`. -/
def getPassed (curr_ticks prev_ticks max_ticks : Nat) : Nat :=
  if curr_ticks < prev_ticks then (max_ticks - prev_ticks + 1) + curr_ticks else curr_ticks - prev_ticks

section
-- `aac_mtu_limiter`, and `need_recover_pkt` as computed in floating point from
-- the difference of the timestamps and the sample rate
variable (limiter : Nat) (floatCnt : Nat → Nat)

/-- `a2dp_audio_aac_lc_packet_recover_find_missing`. -/
def packetRecoverFindMissing (s : State) (frame : Frame) : Nat :=
  match s.lastValid with
  | none => 0
  | some (sequenceNumber, timestamp) =>
    let diff_seq := getPassed frame.sequenceNumber sequenceNumber 0xFFFF
    let diff_timestamp := getPassed frame.timestamp timestamp 0xFFFFFFFF
    if diff_seq > 1 then
      let need_recover_pkt :=
        if diff_timestamp / diff_seq % outputFrameSamples = 0 then diff_timestamp / outputFrameSamples
        else floatCnt diff_timestamp
      if need_recover_pkt = diff_seq then need_recover_pkt - 1 else 0
    else 0

/-- How many copies of the frame `a2dp_audio_aac_lc_packet_recover_proc` appends. -/
def recoverCnt (s : State) (frame : Frame) : Nat :=
  let missing := packetRecoverFindMissing floatCnt s frame
  if missing ≤ 4 ∧ s.list.length + missing < limiter then missing else 0

/-- `a2dp_audio_aac_lc_packet_recover_proc`. -/
def packetRecoverProc (s : State) (frame : Frame) : State :=
  { s with list := s.list ++
      List.replicate (recoverCnt limiter floatCnt s frame) ⟨0xFFFF, 0xFFFFFFFF, frame.aac_buffer⟩ }

/-- `a2dp_audio_aac_lc_packet_append`. -/
def packetAppend (s : State) (frame : Frame) : State :=
  let s := packetRecoverProc limiter floatCnt s frame
  { s with lastValid := some (frame.sequenceNumber, frame.timestamp), list := s.list ++ [frame] }

/-- `a2dp_audio_aac_lc_reorder_proc`. -/
def reorderProc (frame : Frame) (buffer : List UInt8) : Frame :=
  if frame.aac_buffer.length + buffer.length > readbufSize then frame
  else { frame with aac_buffer := frame.aac_buffer ++ buffer }

/-- The test at the start of `a2dp_audio_aac_lc_store_packet`. -/
def State.hasRoom (s : State) (buffer : List UInt8) : Bool :=
  decide (s.list.length < limiter) && decide (buffer.length ≤ readbufSize)

/-- `a2dp_audio_aac_lc_store_packet`; whether it returns `A2DP_DECODER_NO_ERROR`. -/
def storePacket (s : State) (header : Header) (buffer : List UInt8) : Bool × State :=
  if s.hasRoom limiter buffer then
    match s.reorder with
    | none => (true, { s with reorder := some ⟨header.sequenceNumber, header.timestamp, buffer⟩ })
    | some frame =>
      if frame.aac_buffer.take 2 = buffer.take 2 then
        (true, { packetAppend limiter floatCnt s frame with
                 reorder := some ⟨header.sequenceNumber, header.timestamp, buffer⟩ })
      else (true, { packetAppend limiter floatCnt s (reorderProc frame buffer) with reorder := none })
  else (false, s)

/-! ## Runs -/

inductive Event where
  | store (timestamp : Nat) (buffer : List UInt8)
  | decode

/-- `taken` are the frames that the decoder has taken off the list. `past` and
`current` are the access units, each as the packets of it that were accepted. -/
structure Sys where
  aac : State
  taken : List Frame
  sequenceNumber : Nat
  past : List (List (List UInt8))
  current : Option (List (List UInt8))

/-- The packets come with consecutive sequence numbers and at least two bytes
each; `head` are the first two bytes of the packets that begin an access unit,
and the first packet begins one. -/
def step (head : List UInt8) : Event → Sys → Option Sys
  | .store timestamp buffer, s =>
    if buffer.length < 2 then none
    else
      let (ok, aac) := storePacket limiter floatCnt s.aac ⟨s.sequenceNumber, timestamp⟩ buffer
      let sequenceNumber := (s.sequenceNumber + 1) % 2 ^ 16
      if buffer.take 2 = head then
        some { s with aac, sequenceNumber, past := s.past ++ s.current.toList,
                      current := some (if ok then [buffer] else []) }
      else s.current.map fun packets =>
        { s with aac, sequenceNumber, current := some (if ok then packets ++ [buffer] else packets) }
  | .decode, s =>
    match s.aac.list with
    | [] => none
    | frame :: list => some { s with aac := { s.aac with list }, taken := s.taken ++ [frame] }

/-- After `a2dp_audio_aac_lc_reorder_init`, with an empty list. -/
def init (s : Sys) : Prop :=
  s.aac = ⟨[], none, none⟩ ∧ s.taken = [] ∧ s.past = [] ∧ s.current = none

/-- All frames in the order in which they arrived. -/
def Sys.frames (s : Sys) : List (List UInt8) :=
  (s.taken ++ (s.aac.list ++ s.aac.reorder.toList)).map Frame.aac_buffer

/-- The access units of which a packet was accepted. -/
def Sys.units (s : Sys) : List (List (List UInt8)) := (s.past ++ s.current.toList).filter (· ≠ [])

/-- There is exactly one frame for each access unit, which has the bytes of its
packets, and the list is not longer than the limit. -/
structure Reassembled (s : Sys) : Prop where
  frames : s.frames = s.units.map List.flatten
  length : s.aac.list.length ≤ limiter

/-- No missing packets are found; and a packet that does not begin an access
unit is the second one of its unit, whose first packet was accepted, and fits
behind that. -/
def TwoParts (head : List UInt8) (e : Event) (s : Sys) : Prop :=
  match e with
  | .decode => True
  | .store _ buffer =>
    s.aac.hasRoom limiter buffer = true →
    match s.aac.reorder with
    | none => buffer.take 2 = head
    | some frame => recoverCnt limiter floatCnt s.aac frame = 0 ∧ (buffer.take 2 = head ∨
        s.current.getD [] ≠ [] ∧ frame.aac_buffer.length + buffer.length ≤ readbufSize)

instance (head : List UInt8) (e : Event) (s : Sys) : Decidable (TwoParts limiter floatCnt head e s) :=
  match e with
  | .decode => inferInstanceAs (Decidable True)
  | .store _ buffer =>
    match h : s.aac.reorder with
    | none => decidable_of_iff (s.aac.hasRoom limiter buffer = true → buffer.take 2 = head) (by simp [TwoParts, h])
    | some frame =>
      decidable_of_iff (s.aac.hasRoom limiter buffer = true →
        recoverCnt limiter floatCnt s.aac frame = 0 ∧ (buffer.take 2 = head ∨
          s.current.getD [] ≠ [] ∧ frame.aac_buffer.length + buffer.length ≤ readbufSize)) (by simp [TwoParts, h])

/-! ## What a packet does to the list -/

variable {limiter floatCnt} {s s' : Sys} {head : List UInt8}

/-- The list stays within its limit, whatever is recovered. -/
theorem length_packetAppend {aac : State} {frame : Frame} (h : aac.list.length < limiter) :
    (packetAppend limiter floatCnt aac frame).list.length ≤ limiter := by
  have hcnt : aac.list.length + recoverCnt limiter floatCnt aac frame < limiter := by
    unfold recoverCnt
    dsimp only
    split_ifs with hroom
    · exact hroom.2
    · exact h
  simp only [packetAppend, packetRecoverProc, List.length_append, List.length_replicate, List.length_singleton]
  omega

theorem length_storePacket {aac : State} {header : Header} {buffer : List UInt8} (h : aac.list.length ≤ limiter) :
    (storePacket limiter floatCnt aac header buffer).2.list.length ≤ limiter := by
  unfold storePacket
  split_ifs with hroom
  · have hlt : aac.list.length < limiter := of_decide_eq_true ((Bool.and_eq_true _ _ ▸ hroom).1)
    split
    · exact h
    · split_ifs
      · exact length_packetAppend hlt
      · exact length_packetAppend hlt
  · exact h

/-- What is missing does not depend on the bytes of the frame. -/
theorem recoverCnt_reorderProc (aac : State) (frame : Frame) (buffer : List UInt8) :
    recoverCnt limiter floatCnt aac (reorderProc frame buffer) = recoverCnt limiter floatCnt aac frame := by
  unfold reorderProc
  split
  · rfl
  · rfl

theorem packetAppend_of_none {aac : State} {frame : Frame} (h : recoverCnt limiter floatCnt aac frame = 0) :
    packetAppend limiter floatCnt aac frame =
      { aac with lastValid := some (frame.sequenceNumber, frame.timestamp), list := aac.list ++ [frame] } := by
  simp [packetAppend, packetRecoverProc, h]

/-! ## Access units of two parts -/

/-- The packet kept back begins an access unit. -/
structure Inv (limiter : Nat) (head : List UInt8) (s : Sys) : Prop where
  reassembled : Reassembled limiter s
  reorder : ∀ frame, s.aac.reorder = some frame → frame.aac_buffer.take 2 = head

/-- The units after a packet of which `accepted` is stored. -/
theorem units_first (accepted : List (List UInt8)) :
    Sys.units { s with past := s.past ++ s.current.toList, current := some accepted } =
      s.units ++ [accepted].filter (· ≠ []) := by
  simp [Sys.units]

theorem units_current {packets : List (List UInt8)} (h : s.current = some packets) (hne : packets ≠ []) :
    s.units = s.past.filter (· ≠ []) ++ [packets] := by
  simp [Sys.units, h, hne]

/-- A packet is stored, or refused without effect on the frames. -/
theorem step_store {timestamp : Nat} {buffer : List UInt8}
    (hs : step limiter floatCnt head (.store timestamp buffer) s = some s') :
    ∃ ok aac, storePacket limiter floatCnt s.aac ⟨s.sequenceNumber, timestamp⟩ buffer = (ok, aac) ∧
      ((buffer.take 2 = head ∧
          s' = { s with aac, sequenceNumber := (s.sequenceNumber + 1) % 2 ^ 16, past := s.past ++ s.current.toList,
                        current := some (if ok then [buffer] else []) }) ∨
        (buffer.take 2 ≠ head ∧ ∃ packets, s.current = some packets ∧
          s' = { s with aac, sequenceNumber := (s.sequenceNumber + 1) % 2 ^ 16,
                        current := some (if ok then packets ++ [buffer] else packets) })) := by
  simp only [step] at hs
  split at hs
  · cases hs
  · refine ⟨_, _, rfl, ?_⟩
    split at hs
    · exact .inl ⟨‹_›, (Option.some.inj hs).symm⟩
    · obtain ⟨packets, hcurrent, rfl⟩ := Option.map_eq_some_iff.1 hs
      exact .inr ⟨‹_›, packets, hcurrent, rfl⟩

theorem Inv.refused {timestamp : Nat} {buffer : List UInt8} (h : Inv limiter head s)
    (hroom : ¬ s.aac.hasRoom limiter buffer = true)
    (hs : step limiter floatCnt head (.store timestamp buffer) s = some s') : Inv limiter head s' := by
  obtain ⟨ok, aac, hstore, hcases⟩ := step_store hs
  rw [storePacket, if_neg hroom] at hstore
  cases hstore
  rcases hcases with ⟨-, rfl⟩ | ⟨-, packets, hcurrent, rfl⟩
  · refine ⟨⟨?_, h.reassembled.length⟩, h.reorder⟩
    exact h.reassembled.frames.trans (by simp [Sys.units])
  · refine ⟨⟨?_, h.reassembled.length⟩, h.reorder⟩
    simpa [Sys.units, Sys.frames, hcurrent] using h.reassembled.frames

/-- The packet begins an access unit: the one kept back is a whole unit. -/
theorem Inv.first {timestamp : Nat} {buffer : List UInt8} (h : Inv limiter head s)
    (hroom : s.aac.hasRoom limiter buffer = true) (hhead : buffer.take 2 = head)
    (hmissing : ∀ frame, s.aac.reorder = some frame → recoverCnt limiter floatCnt s.aac frame = 0)
    (hs : step limiter floatCnt head (.store timestamp buffer) s = some s') : Inv limiter head s' := by
  obtain ⟨ok, aac, hstore, ⟨-, rfl⟩ | ⟨hne, -⟩⟩ := step_store hs
  case inr => exact absurd hhead hne
  have hlen : (storePacket limiter floatCnt s.aac ⟨s.sequenceNumber, timestamp⟩ buffer).2.list.length ≤ limiter :=
    length_storePacket h.reassembled.length
  rw [hstore] at hlen
  rw [storePacket, if_pos hroom] at hstore
  have hframes := h.reassembled.frames
  have hunits := units_first (s := s) [buffer]
  -- the new packet is kept back behind all frames there are
  suffices hnew : ok = true ∧ Sys.frames { s with aac } = s.frames ++ [buffer] ∧
      ∀ frame, aac.reorder = some frame → frame.aac_buffer.take 2 = head by
    obtain ⟨rfl, hnew, hreorder⟩ := hnew
    refine ⟨⟨?_, hlen⟩, hreorder⟩
    calc Sys.frames { s with aac }
        = s.frames ++ [buffer] := hnew
      _ = (s.units ++ [[buffer]]).map List.flatten := by simp [hframes]
      _ = _ := by
        rw [show s.units ++ [[buffer]] = s.units ++ [[buffer]].filter (· ≠ []) by simp, ← hunits]
        rfl
  cases hkept : s.aac.reorder with
  | none =>
    rw [hkept] at hstore
    cases hstore
    exact ⟨rfl, by simp [Sys.frames, hkept], by rintro _ ⟨⟩; exact hhead⟩
  | some frame =>
    -- the same first two bytes: the frame kept back goes to the list
    rw [hkept] at hstore
    simp only [if_pos ((h.reorder frame hkept).trans hhead.symm), packetAppend_of_none (hmissing frame hkept)] at hstore
    cases hstore
    exact ⟨rfl, by simp [Sys.frames, hkept], by rintro _ ⟨⟩; exact hhead⟩

/-- The packet is the second part of the access unit kept back. -/
theorem Inv.second {timestamp : Nat} {buffer : List UInt8} {frame : Frame} (h : Inv limiter head s)
    (hroom : s.aac.hasRoom limiter buffer = true) (hhead : buffer.take 2 ≠ head) (hkept : s.aac.reorder = some frame)
    (hmissing : recoverCnt limiter floatCnt s.aac frame = 0) (hfirst : s.current.getD [] ≠ [])
    (hfits : frame.aac_buffer.length + buffer.length ≤ readbufSize)
    (hs : step limiter floatCnt head (.store timestamp buffer) s = some s') : Inv limiter head s' := by
  obtain ⟨ok, aac, hstore, ⟨heq, -⟩ | ⟨-, packets, hcurrent, rfl⟩⟩ := step_store hs
  · exact absurd heq hhead
  have hlen : (storePacket limiter floatCnt s.aac ⟨s.sequenceNumber, timestamp⟩ buffer).2.list.length ≤ limiter :=
    length_storePacket h.reassembled.length
  rw [hstore] at hlen
  -- other first two bytes: the packet is put behind the frame kept back
  have hdiff : ¬ frame.aac_buffer.take 2 = buffer.take 2 := by
    rw [h.reorder frame hkept]
    exact fun heq => hhead heq.symm
  have hmissing' : recoverCnt limiter floatCnt s.aac (reorderProc frame buffer) = 0 := by
    rw [recoverCnt_reorderProc, hmissing]
  rw [storePacket, if_pos hroom, hkept] at hstore
  simp only [if_neg hdiff, packetAppend_of_none hmissing'] at hstore
  cases hstore
  have hne : packets ≠ [] := by simpa [hcurrent] using hfirst
  -- the frame kept back has the bytes of the unit so far
  have hframes := h.reassembled.frames
  rw [units_current hcurrent hne, List.map_append] at hframes
  have hsplit : s.frames = (s.taken ++ s.aac.list).map Frame.aac_buffer ++ [frame.aac_buffer] := by
    simp [Sys.frames, hkept]
  rw [hsplit] at hframes
  obtain ⟨hold, hunit⟩ := List.append_inj' hframes rfl
  refine ⟨⟨?_, hlen⟩, by rintro _ ⟨⟩⟩
  have hbuf : (reorderProc frame buffer).aac_buffer = frame.aac_buffer ++ buffer := by
    simp [reorderProc, Nat.not_lt.2 hfits]
  have hunit' : frame.aac_buffer = packets.flatten := by simpa using hunit
  have hunits := units_current (s := { s with current := some (packets ++ [buffer]) }) rfl (by simp)
  calc ((s.taken ++ (s.aac.list ++ [reorderProc frame buffer] ++ [])).map Frame.aac_buffer)
      = (s.taken ++ s.aac.list).map Frame.aac_buffer ++ [frame.aac_buffer ++ buffer] := by simp [hbuf]
    _ = (s.past.filter (· ≠ []) ++ [packets ++ [buffer]]).map List.flatten := by
      rw [hold, hunit', List.map_append]
      simp
    _ = _ := by rw [← hunits]; rfl

theorem Inv.decode (h : Inv limiter head s) (hs : step limiter floatCnt head .decode s = some s') :
    Inv limiter head s' := by
  cases hlist : s.aac.list with
  | nil => simp [step, hlist] at hs
  | cons frame list =>
    obtain rfl : { s with aac := { s.aac with list }, taken := s.taken ++ [frame] } = s' := by
      simpa [step, hlist] using hs
    have hlen := h.reassembled.length
    have hframes := h.reassembled.frames
    simp only [Sys.frames, hlist, List.length_cons] at hlen hframes
    have hsame : Sys.frames { s with aac := { s.aac with list }, taken := s.taken ++ [frame] } =
        s.units.map List.flatten := by
      simpa [Sys.frames] using hframes
    exact ⟨⟨hsame, by simp only; omega⟩, h.reorder⟩

theorem init_inv (h : init s) : Inv limiter head s := by
  obtain ⟨haac, htaken, hpast, hcurrent⟩ := h
  exact ⟨⟨by simp [Sys.frames, Sys.units, haac, htaken, hpast, hcurrent], by simp [haac]⟩, by simp [haac]⟩

theorem step_inv (e : Event) (s s' : Sys) (h : Inv limiter head s) (hc : TwoParts limiter floatCnt head e s)
    (hs : step limiter floatCnt head e s = some s') : Inv limiter head s' := by
  cases e with
  | decode => exact h.decode hs
  | store timestamp buffer =>
    by_cases hroom : s.aac.hasRoom limiter buffer = true
    · have hc := hc hroom
      cases hkept : s.aac.reorder with
      | none =>
        rw [hkept] at hc
        exact h.first hroom hc (by simp [hkept]) hs
      | some frame =>
        rw [hkept] at hc
        obtain ⟨hmissing, hc⟩ := hc
        by_cases hhead : buffer.take 2 = head
        · exact h.first hroom hhead (by rintro _ hframe; rw [hkept] at hframe; cases hframe; exact hmissing) hs
        · obtain ⟨hfirst, hfits⟩ := hc.resolve_left hhead
          exact h.second hroom hhead hkept hmissing hfirst hfits hs
    · exact h.refused hroom hs

/-- Access units of one or two packets that fit, with nothing recovered between
them, are reassembled. -/
theorem units_reassembled {evs : List Event}
    (h : Run (step limiter floatCnt head) (TwoParts limiter floatCnt head) init s evs) : Reassembled limiter s :=
  (h.inv (Inv limiter head) (fun _ => init_inv) step_inv).reassembled

end

/-! ## Access units of three parts -/

/-- A reset decoder. -/
def started : Sys := ⟨⟨[], none, none⟩, [], 7, [], none⟩

/-- An access unit in two packets, one in a single packet, and the start of a third. -/
theorem units_reassembled_example : ∃ s, Run (step 32 (fun _ => 0) [0x47, 0xFC]) (TwoParts 32 (fun _ => 0) [0x47, 0xFC]) init s
    [.store 0 [0x47, 0xFC, 1], .store 0 [2, 3], .decode, .store 1024 [0x47, 0xFC], .store 2048 [0x47, 0xFC, 4]] ∧
    s.frames = [[0x47, 0xFC, 1, 2, 3], [0x47, 0xFC], [0x47, 0xFC, 4]] ∧ Reassembled 32 s := by
  obtain ⟨s, hrun, hs⟩ := exists_run_of_check (step 32 (fun _ => 0) [0x47, 0xFC]) (TwoParts 32 (fun _ => 0) [0x47, 0xFC])
    init (some started)
    [.store 0 [0x47, 0xFC, 1], .store 0 [2, 3], .decode, .store 1024 [0x47, 0xFC], .store 2048 [0x47, 0xFC, 4]]
    (fun s => decide (s.frames = [[0x47, 0xFC, 1, 2, 3], [0x47, 0xFC], [0x47, 0xFC, 4]]))
    (by rintro _ ⟨⟩; exact ⟨rfl, rfl, rfl, rfl⟩) (by decide +kernel)
  exact ⟨s, hrun, of_decide_eq_true hs, units_reassembled hrun⟩

/-- The third packet of an access unit is kept back as if it began one, and the
next access unit is put behind it. -/
theorem third_part_split : ∃ s, Run (step 32 (fun _ => 0) [0x47, 0xFC]) (fun _ _ => True) init s
    [.store 0 [0x47, 0xFC, 1], .store 0 [2, 2], .store 0 [3, 3], .store 1024 [0x47, 0xFC, 4]] ∧
    s.units = [[[0x47, 0xFC, 1], [2, 2], [3, 3]], [[0x47, 0xFC, 4]]] ∧
    s.frames = [[0x47, 0xFC, 1, 2, 2], [3, 3, 0x47, 0xFC, 4]] ∧ ¬ Reassembled 32 s := by
  obtain ⟨s, hrun, hs⟩ := exists_run_of_check (step 32 (fun _ => 0) [0x47, 0xFC]) (fun _ _ => True) init (some started)
    [.store 0 [0x47, 0xFC, 1], .store 0 [2, 2], .store 0 [3, 3], .store 1024 [0x47, 0xFC, 4]]
    (fun s => decide (s.units = [[[0x47, 0xFC, 1], [2, 2], [3, 3]], [[0x47, 0xFC, 4]]] ∧
      s.frames = [[0x47, 0xFC, 1, 2, 2], [3, 3, 0x47, 0xFC, 4]]))
    (by rintro _ ⟨⟩; exact ⟨rfl, rfl, rfl, rfl⟩) (by decide +kernel)
  obtain ⟨hunits, hframes⟩ := of_decide_eq_true hs
  refine ⟨s, hrun, hunits, hframes, fun h => ?_⟩
  have := h.frames
  rw [hunits, hframes] at this
  simp at this

end A2dp.Aac
