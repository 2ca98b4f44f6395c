import LittleBuddy.A2dp.Aac
import LittleBuddy.Lib.Bytes
import Mathlib
/-!
# SBC frames from media packets

`a2dp_audio_sbc_store_packet` of `apps/audioplayers/a2dp_decoder/a2dp_decoder_sbc.cpp`
cuts the payload of a packet into the SBC frames that a parser finds and appends
them to the raw packet list, behind copies of the first one when packets seem to
be missing. The parser is not part of the repository.
-/
open Bytes Runs
open A2dp.Aac (Header getPassed)

namespace A2dp.Sbc

/-! ## The code -/

/-- `sbc_mtu_limiter`, `SBC_LIST_SAMPLES` and `FRAME_LIST_MAX`. -/
abbrev mtuLimiter : Nat := 250
abbrev listSamples : Nat := 128
abbrev frameListMax : Nat := 20

/-- `a2dp_audio_sbc_decoder_frame_t` with the heap block it is in; copies for
missing packets leave the sub-sequence numbers as the heap has them. -/
structure Frame where
  block : Nat
  sequenceNumber : Nat
  timestamp : Nat
  curSubSequenceNumber : Option Nat
  totalSubSequenceNumber : Option Nat
  sbc_buffer : List UInt8
  deriving DecidableEq

/-- `input_raw_packet_list`, the blocks in use, `sbc_decoder_last_valid_frame`
once it is ready, and `a2dp_audio_sbc_decoder_preparse`. -/
structure State (P : Type) where
  list : List Frame
  heap : List Nat
  nextBlock : Nat
  lastValid : Option Header
  preparse : P

/-- `A2DP_DECODER_NO_ERROR`, `A2DP_DECODER_DECODE_ERROR` and `A2DP_DECODER_MTU_LIMTER_ERROR`. -/
inductive Ret where
  | noError
  | decodeError
  | mtuLimterError
  deriving DecidableEq

variable {P : Type}

/-- `a2dp_audio_sbc_subframe_malloc`; the heap asserts that there is memory. -/
def subframeMalloc (s : State P) : Nat × State P :=
  (s.nextBlock, { s with heap := s.nextBlock :: s.heap, nextBlock := s.nextBlock + 1 })

/-- `a2dp_audio_sbc_subframe_free`. -/
def subframeFree (s : State P) (frame : Frame) : State P := { s with heap := s.heap.erase frame.block }

section
-- `btif_sbc_decode_frames_parser` on the bytes from a pointer on: the number of
-- bytes it has parsed if it succeeds
variable (parser : P → List UInt8 → Option UInt16 × P)

/-- `a2dp_audio_sbc_packet_recover_find_missing`. -/
def packetRecoverFindMissing (lastValid : Option Header) (header : Header) (frame_cnt : Nat) : Nat :=
  match lastValid with
  | none => 0
  | some last =>
    let diff_seq := getPassed header.sequenceNumber last.sequenceNumber 0xFFFF
    let diff_timestamp := getPassed header.timestamp last.timestamp 0xFFFFFFFF
    if diff_seq > 1 then
      if diff_timestamp / diff_seq % listSamples = 0 then
        let need_recover_pkt := diff_timestamp / listSamples
        if need_recover_pkt > frame_cnt then need_recover_pkt - frame_cnt else need_recover_pkt
      else (diff_seq - 1) * frame_cnt
    else 0

/-- How many copies `a2dp_audio_sbc_packet_recover_proc` appends. -/
def recoverCnt (s : State P) (header : Header) (frame_cnt : Nat) : Nat :=
  let missing := packetRecoverFindMissing s.lastValid header frame_cnt
  if s.list.length + missing < mtuLimiter then missing else 0

/-- The loop of `a2dp_audio_sbc_packet_recover_proc`. -/
def recoverLoop (sbc_buffer : List UInt8) : Nat → State P → State P
  | 0, s => s
  | n + 1, s =>
    let (block, s) := subframeMalloc s
    recoverLoop sbc_buffer n { s with list := s.list ++ [⟨block, 0xFFFF, 0xFFFFFFFF, none, none, sbc_buffer⟩] }

/-- `a2dp_audio_sbc_packet_recover_proc`. -/
def packetRecoverProc (s : State P) (header : Header) (raw_frame : Option Frame) (frame_cnt : Nat) : State P :=
  match raw_frame with
  | none => s
  | some frame => recoverLoop frame.sbc_buffer (recoverCnt s header frame_cnt) s

/-- The loop of `a2dp_audio_sbc_store_packet` over the payload at address 1 of
`mem`, with whether it ends without `find_err`. It ends after
`FRAME_LIST_MAX` turns at the latest. -/
def parseLoop (mem : Nat → UInt8) (header : Header) (frame_num bytes : Nat) :
    Nat → Nat → List Frame → State P → Bool × List Frame × State P
  | 0, _, frames, s => (false, frames, s)
  | turns + 1, i, frames, s =>
    if i < bytes then
      if mem (1 + i) = 0x9c then
        match parser s.preparse (read mem (1 + i) bytes) with
        | (none, preparse) => (false, frames, { s with preparse })
        | (some bytes_parsed, preparse) =>
          let (block, s) := subframeMalloc { s with preparse }
          let frames := frames ++ [⟨block, header.sequenceNumber, header.timestamp, some frames.length, some frame_num,
            read mem (1 + i) bytes_parsed.toNat⟩]
          if frames.length ≥ frameListMax then (false, frames, s)
          else parseLoop mem header frame_num bytes turns (i + bytes_parsed.toNat) frames s
      else (false, frames, s)
    else (true, frames, s)

/-- `buffer_bytes--`, on a `uint32_t`. -/
def payloadBytes (buffer_bytes : Nat) : Nat := (buffer_bytes + 0xFFFFFFFF) % 2 ^ 32

/-- `a2dp_audio_sbc_store_packet` of `buffer_bytes` bytes at the start of `mem`. -/
def storePacket (s : State P) (header : Header) (mem : Nat → UInt8) (buffer_bytes : Nat) : Ret × State P :=
  let frame_num := (mem 0).toNat
  if frame_num = 0 then (.decodeError, s)
  else
    if s.list.length + frame_num < mtuLimiter then
      match parseLoop parser mem header frame_num (payloadBytes buffer_bytes) frameListMax 0 [] s with
      | (false, frames, s) => (.decodeError, frames.foldl subframeFree s)
      | (true, frames, s) =>
        let s := packetRecoverProc s header frames.head? frame_num
        (.noError, { s with lastValid := some header, list := s.list ++ frames })
    else (.mtuLimterError, s)

/-! ## What a packet should do -/

/-- The parser finds frames of these lengths one behind the other, from byte
`i` of the payload on until its end is reached or passed. -/
inductive Cuts (mem : Nat → UInt8) (bytes : Nat) : P → Nat → List Nat → Prop
  | done {st i} : bytes ≤ i → Cuts mem bytes st i []
  | frame {st t i n lens} : i < bytes → mem (1 + i) = 0x9c →
      parser st (read mem (1 + i) bytes) = (some n, t) → Cuts mem bytes t (i + n.toNat) lens →
      Cuts mem bytes st i (n.toNat :: lens)

/-- On success the list has grown by copies of the first frame and by the whole
payload cut into numbered frames, and is not longer than the limit; on an error
the list and the heap are as before. -/
def Stored (s : State P) (mem : Nat → UInt8) (buffer_bytes : Nat) (r : Ret × State P) : Prop :=
  match r.1 with
  | .noError => ∃ recovered frames, r.2.list = s.list ++ (recovered ++ frames) ∧
      (∀ f ∈ recovered, f.curSubSequenceNumber = none ∧ frames.head?.map Frame.sbc_buffer = some f.sbc_buffer) ∧
      (frames.map Frame.sbc_buffer).flatten = (read mem 0 buffer_bytes).drop 1 ∧
      (∀ k f, frames[k]? = some f → f.curSubSequenceNumber = some k ∧
        f.totalSubSequenceNumber = some (mem 0).toNat ∧ k < (mem 0).toNat) ∧
      r.2.list.length ≤ mtuLimiter
  | _ => r.2.list = s.list ∧ r.2.heap = s.heap

/-- If the packet is taken and the parser finds fewer than `FRAME_LIST_MAX`
frames, they end with the packet, are as many as the header says or fewer, and
have room together with the copies. -/
def Fits (s : State P) (header : Header) (mem : Nat → UInt8) (buffer_bytes : Nat) : Prop :=
  mem 0 ≠ 0 → s.list.length + (mem 0).toNat < mtuLimiter →
    ∀ lens, Cuts parser mem (payloadBytes buffer_bytes) s.preparse 0 lens → lens.length < frameListMax →
      lens.sum = buffer_bytes - 1 ∧ lens.length ≤ (mem 0).toNat ∧
      s.list.length + (if lens = [] then 0 else recoverCnt s header (mem 0).toNat) + lens.length ≤ mtuLimiter

/-! ## Cuts -/

variable {parser} {mem : Nat → UInt8} {bytes : Nat} {header : Header} {frame_num : Nat} {s s' : State P}

theorem Cuts.unique {st : P} {i : Nat} {lens lens' : List Nat} (h : Cuts parser mem bytes st i lens)
    (h' : Cuts parser mem bytes st i lens') : lens = lens' := by
  induction h generalizing lens' with
  | done hend =>
    cases h' with
    | done => rfl
    | frame hlt => omega
  | frame hlt _ hparse _ ih =>
    cases h' with
    | done hend => omega
    | frame _ _ hparse' hcuts' =>
      rw [hparse, Prod.mk.injEq, Option.some.injEq] at hparse'
      obtain ⟨rfl, rfl⟩ := hparse'
      rw [ih hcuts']

/-- The frames of these lengths from byte `i` on, in blocks from `block` on and numbered from `k` on. -/
def framesOf (mem : Nat → UInt8) (header : Header) (frame_num : Nat) : Nat → Nat → Nat → List Nat → List Frame
  | _, _, _, [] => []
  | block, k, i, n :: lens =>
    ⟨block, header.sequenceNumber, header.timestamp, some k, some frame_num, read mem (1 + i) n⟩ ::
      framesOf mem header frame_num (block + 1) (k + 1) (i + n) lens

@[simp] theorem length_framesOf {block k i : Nat} {lens : List Nat} :
    (framesOf mem header frame_num block k i lens).length = lens.length := by
  induction lens generalizing block k i with
  | nil => rfl
  | cons n lens ih => simp [framesOf, ih]

theorem blocks_framesOf {block k i : Nat} {lens : List Nat} :
    (framesOf mem header frame_num block k i lens).map Frame.block = List.range' block lens.length := by
  induction lens generalizing block k i with
  | nil => rfl
  | cons n lens ih => simp [framesOf, ih, List.range'_succ]

theorem flatten_framesOf {block k i : Nat} {lens : List Nat} :
    ((framesOf mem header frame_num block k i lens).map Frame.sbc_buffer).flatten = read mem (1 + i) lens.sum := by
  induction lens generalizing block k i with
  | nil => rfl
  | cons n lens ih =>
    simp only [framesOf, List.map_cons, List.flatten_cons, ih, List.sum_cons]
    rw [← Nat.add_assoc]
    exact (read_add ..).symm

theorem getElem?_framesOf {block k i j : Nat} {lens : List Nat} {f : Frame}
    (h : (framesOf mem header frame_num block k i lens)[j]? = some f) :
    f.curSubSequenceNumber = some (k + j) ∧ f.totalSubSequenceNumber = some frame_num ∧ j < lens.length := by
  induction lens generalizing block k i j with
  | nil => simp [framesOf] at h
  | cons n lens ih =>
    cases j with
    | zero =>
      obtain rfl := Option.some.inj h
      exact ⟨rfl, rfl, Nat.succ_pos _⟩
    | succ j =>
      obtain ⟨hcur, htotal, hlt⟩ := ih h
      exact ⟨by rw [hcur]; congr 1; omega, htotal, Nat.succ_lt_succ hlt⟩

/-! ## The loop -/

/-- What the loop has done: the frames it has found, and the blocks it has taken. -/
structure Parsed (header : Header) (mem : Nat → UInt8) (frame_num : Nat) (s : State P) (i : Nat) (frames : List Frame)
    (lens : List Nat) (frames' : List Frame) (s' : State P) : Prop where
  frames : frames' = frames ++ framesOf mem header frame_num s.nextBlock frames.length i lens
  list : s'.list = s.list
  lastValid : s'.lastValid = s.lastValid
  heap : s'.heap = (List.range' s.nextBlock lens.length).reverse ++ s.heap

theorem Parsed.nil {i : Nat} {frames : List Frame} (hlist : s'.list = s.list) (hvalid : s'.lastValid = s.lastValid)
    (hheap : s'.heap = s.heap) : Parsed header mem frame_num s i frames [] frames s' :=
  ⟨by simp [framesOf], hlist, hvalid, hheap⟩

/-- One frame, and then the others. -/
theorem Parsed.cons {i n : Nat} {frames frames' : List Frame} {lens : List Nat} (preparse : P)
    (h : Parsed header mem frame_num
      { s with preparse, heap := s.nextBlock :: s.heap, nextBlock := s.nextBlock + 1 } (i + n)
      (frames ++ [⟨s.nextBlock, header.sequenceNumber, header.timestamp, some frames.length, some frame_num,
        read mem (1 + i) n⟩]) lens frames' s') :
    Parsed header mem frame_num s i frames (n :: lens) frames' s' := by
  refine ⟨?_, h.list, h.lastValid, ?_⟩
  · rw [h.frames, framesOf]
    simp
  · rw [h.heap, List.length_cons, List.range'_succ, List.reverse_cons]
    simp

/-- The loop finds the frames if there are fewer than its turns, and says so. -/
theorem parseLoop_spec {turns i : Nat} {frames : List Frame} (hturns : frames.length + turns = frameListMax)
    {ok : Bool} {frames' : List Frame}
    (h : parseLoop parser mem header frame_num bytes turns i frames s = (ok, frames', s')) :
    ∃ lens, Parsed header mem frame_num s i frames lens frames' s' ∧
      (ok = true → Cuts parser mem bytes s.preparse i lens ∧ lens.length < turns) ∧
      (ok = false → ∀ lens', Cuts parser mem bytes s.preparse i lens' → turns ≤ lens'.length) := by
  induction turns generalizing i frames s with
  | zero =>
    cases h
    exact ⟨[], .nil rfl rfl rfl, by simp, fun _ _ _ => Nat.zero_le _⟩
  | succ turns ih =>
    rw [parseLoop] at h
    split_ifs at h with hlt hsync
    · cases hparse : parser s.preparse (read mem (1 + i) bytes) with
      | mk parsed preparse =>
        -- a cut goes on as the parser does
        have hcut : ∀ {n lens'}, parsed = n → Cuts parser mem bytes s.preparse i lens' →
            ∃ m lens'', n = some m ∧ lens' = m.toNat :: lens'' ∧ Cuts parser mem bytes preparse (i + m.toNat) lens'' := by
          rintro n lens' rfl hcuts
          cases hcuts with
          | done hend => omega
          | frame _ _ hparse' hcuts' =>
            rw [hparse, Prod.mk.injEq] at hparse'
            obtain ⟨rfl, rfl⟩ := hparse'
            exact ⟨_, _, rfl, rfl, hcuts'⟩
        rw [hparse] at h
        cases parsed with
        | none =>
          cases h
          refine ⟨[], .nil rfl rfl rfl, by simp, fun _ lens' hcuts => ?_⟩
          obtain ⟨_, _, hnone, -⟩ := hcut rfl hcuts
          cases hnone
        | some n =>
          simp only [subframeMalloc, List.length_append, List.length_singleton, ge_iff_le] at h
          by_cases hmax : frameListMax ≤ frames.length + 1
          · -- the test of the count comes after the frame is stored: this is the last turn
            obtain rfl : turns = 0 := by omega
            rw [if_pos hmax] at h
            cases h
            refine ⟨[n.toNat], .cons preparse (.nil rfl rfl rfl), by simp, fun _ lens' hcuts => ?_⟩
            obtain ⟨_, _, -, rfl, -⟩ := hcut rfl hcuts
            simp
          · rw [if_neg hmax] at h
            obtain ⟨lens, hparsed, hok, herr⟩ := ih (by simp only [List.length_append, List.length_singleton]; omega) h
            refine ⟨n.toNat :: lens, .cons preparse hparsed, ?_, ?_⟩
            · intro htrue
              obtain ⟨hcuts, hlen⟩ := hok htrue
              exact ⟨.frame hlt hsync hparse hcuts, Nat.succ_lt_succ hlen⟩
            · intro hfalse lens' hcuts
              obtain ⟨m, lens'', heq, rfl, hcuts'⟩ := hcut rfl hcuts
              obtain rfl := Option.some.inj heq
              exact Nat.succ_le_succ (herr hfalse lens'' hcuts')
    · cases h
      refine ⟨[], .nil rfl rfl rfl, by simp, fun _ lens' hcuts => ?_⟩
      cases hcuts with
      | done hend => omega
      | frame _ hsync' => exact absurd hsync' hsync
    · cases h
      exact ⟨[], .nil rfl rfl rfl, fun _ => ⟨.done (Nat.le_of_not_lt hlt), Nat.succ_pos _⟩, by simp⟩

/-! ## The copies and the frees -/

/-- Freeing all blocks taken gives the heap back. -/
theorem foldl_free {frames : List Frame} {heap : List Nat} (hheap : s.heap = (frames.map Frame.block).reverse ++ heap)
    (hnodup : (frames.map Frame.block).Nodup) :
    (frames.foldl subframeFree s).heap = heap ∧ (frames.foldl subframeFree s).list = s.list := by
  induction frames generalizing s with
  | nil => exact ⟨hheap, rfl⟩
  | cons f frames ih =>
    obtain ⟨hnot, hnodup⟩ := List.nodup_cons.1 hnodup
    have herase : (subframeFree s f).heap = (frames.map Frame.block).reverse ++ heap := by
      simp only [subframeFree, hheap, List.map_cons, List.reverse_cons, List.append_assoc]
      rw [List.erase_append_right _ (by simpa using hnot), List.singleton_append, List.erase_cons_head]
    obtain ⟨hheap', hlist⟩ := ih herase hnodup
    exact ⟨hheap', hlist⟩

/-- The copies of the first frame have no number of their own. -/
theorem recoverLoop_list (sbc_buffer : List UInt8) (n : Nat) : ∃ recovered, recovered.length = n ∧
    (recoverLoop sbc_buffer n s).list = s.list ++ recovered ∧
    ∀ f ∈ recovered, f.curSubSequenceNumber = none ∧ f.sbc_buffer = sbc_buffer := by
  induction n generalizing s with
  | zero => exact ⟨[], rfl, by simp [recoverLoop], by simp⟩
  | succ n ih =>
    obtain ⟨recovered, hlen, hlist, hall⟩ := ih (s := { (subframeMalloc s).2 with
      list := s.list ++ [⟨s.nextBlock, 0xFFFF, 0xFFFFFFFF, none, none, sbc_buffer⟩] })
    refine ⟨⟨s.nextBlock, 0xFFFF, 0xFFFFFFFF, none, none, sbc_buffer⟩ :: recovered, by simp [hlen], ?_, ?_⟩
    · rw [recoverLoop]
      simpa [subframeMalloc] using hlist
    · intro f hf
      rcases List.mem_cons.1 hf with rfl | hf
      · exact ⟨rfl, rfl⟩
      · exact hall f hf

/-! ## Storing a packet -/

/-- Frames that are numbered can be told from the copies in front of them. -/
theorem numbered_unique {recovered recovered' frames frames' : List Frame}
    (hrec : ∀ f ∈ recovered, f.curSubSequenceNumber = none) (hrec' : ∀ f ∈ recovered', f.curSubSequenceNumber = none)
    (hnum : ∀ f ∈ frames, f.curSubSequenceNumber ≠ none) (hnum' : ∀ f ∈ frames', f.curSubSequenceNumber ≠ none)
    (h : recovered ++ frames = recovered' ++ frames') : frames = frames' := by
  have hfilter : ∀ {r l : List Frame}, (∀ f ∈ r, f.curSubSequenceNumber = none) →
      (∀ f ∈ l, f.curSubSequenceNumber ≠ none) → (r ++ l).filter (·.curSubSequenceNumber.isSome) = l := by
    intro r l hr hl
    rw [List.filter_append, List.filter_eq_nil_iff.2 fun f hf => by simp [hr f hf],
      List.filter_eq_self.2 fun f hf => Option.isSome_iff_ne_none.2 (hl f hf), List.nil_append]
  rw [← hfilter hrec hnum, h, hfilter hrec' hnum']

theorem storePacket_eq {buffer_bytes : Nat} (hnum : (mem 0).toNat ≠ 0)
    (hroom : s.list.length + (mem 0).toNat < mtuLimiter) : storePacket parser s header mem buffer_bytes =
      match parseLoop parser mem header (mem 0).toNat (payloadBytes buffer_bytes) frameListMax 0 [] s with
      | (false, frames, s) => (.decodeError, frames.foldl subframeFree s)
      | (true, frames, s) =>
        let s := packetRecoverProc s header frames.head? (mem 0).toNat
        (.noError, { s with lastValid := some header, list := s.list ++ frames }) := by
  rw [storePacket, if_neg hnum, if_pos hroom]

/-- What a packet that is taken does to the list, by what the parser finds. -/
theorem storePacket_taken (parser : P → List UInt8 → Option UInt16 × P) (header : Header) (buffer_bytes : Nat)
    (hnum : (mem 0).toNat ≠ 0)
    (hroom : s.list.length + (mem 0).toNat < mtuLimiter) :
    (∃ lens recovered frames, Cuts parser mem (payloadBytes buffer_bytes) s.preparse 0 lens ∧
      lens.length < frameListMax ∧ frames = framesOf mem header (mem 0).toNat s.nextBlock 0 0 lens ∧
      (storePacket parser s header mem buffer_bytes).1 = .noError ∧
      (storePacket parser s header mem buffer_bytes).2.list = s.list ++ (recovered ++ frames) ∧
      recovered.length = (if lens = [] then 0 else recoverCnt s header (mem 0).toNat) ∧
      ∀ f ∈ recovered, f.curSubSequenceNumber = none ∧ frames.head?.map Frame.sbc_buffer = some f.sbc_buffer) ∨
    ((∀ lens, Cuts parser mem (payloadBytes buffer_bytes) s.preparse 0 lens → frameListMax ≤ lens.length) ∧
      (storePacket parser s header mem buffer_bytes).1 = .decodeError ∧
      (storePacket parser s header mem buffer_bytes).2.list = s.list ∧
      (storePacket parser s header mem buffer_bytes).2.heap = s.heap) := by
  rw [storePacket_eq hnum hroom]
  generalize payloadBytes buffer_bytes = bytes
  rcases hparse : parseLoop parser mem header (mem 0).toNat bytes frameListMax 0 [] s with ⟨ok, frames, s₁⟩
  obtain ⟨lens, hparsed, hok, herr⟩ := parseLoop_spec (by rfl) hparse
  have hframes := hparsed.frames
  rw [List.nil_append] at hframes
  cases ok with
  | false =>
    have hblocks : frames.map Frame.block = List.range' s.nextBlock lens.length := by rw [hframes, blocks_framesOf]
    -- all blocks are fresh: each is freed once
    have hnodup : (frames.map Frame.block).Nodup := by
      rw [hblocks]
      exact List.nodup_range'
    have hfreed : s₁.heap = (frames.map Frame.block).reverse ++ s.heap := by rw [hblocks, hparsed.heap]
    obtain ⟨hheap, hlist⟩ := foldl_free hfreed hnodup
    exact .inr ⟨herr rfl, rfl, hlist.trans hparsed.list, hheap⟩
  | true =>
    obtain ⟨hcuts, hlen⟩ := hok rfl
    have hcnt : recoverCnt s₁ header (mem 0).toNat = recoverCnt s header (mem 0).toNat := by
      simp [recoverCnt, hparsed.list, hparsed.lastValid]
    refine .inl ⟨lens, ?_⟩
    cases lens with
    | nil =>
      have hnil : frames = [] := hframes
      subst hnil
      exact ⟨[], [], hcuts, hlen, hframes, by simp, by simp [packetRecoverProc, hparsed.list], by simp, by simp⟩
    | cons n lens =>
      obtain ⟨f, rest, hf⟩ : ∃ f rest, frames = f :: rest := ⟨_, _, hframes⟩
      obtain ⟨recovered, hlen', hlist, hall⟩ := recoverLoop_list (s := s₁) f.sbc_buffer (recoverCnt s₁ header (mem 0).toNat)
      have hproc : packetRecoverProc s₁ header frames.head? (mem 0).toNat =
          recoverLoop f.sbc_buffer (recoverCnt s₁ header (mem 0).toNat) s₁ := by
        rw [hf]
        simp only [packetRecoverProc, List.head?_cons]
      refine ⟨recovered, frames, hcuts, hlen, hframes, by simp, ?_, by simp [hlen', hcnt], ?_⟩
      · simp only [hproc, hlist, hparsed.list, List.append_assoc]
      · intro g hg
        exact ⟨(hall g hg).1, by rw [hf, (hall g hg).2]; simp⟩

/-- A packet is stored as it should be exactly if its frames fit. -/
theorem stored_iff (s : State P) (header : Header) (mem : Nat → UInt8) (buffer_bytes : Nat) :
    Stored s mem buffer_bytes (storePacket parser s header mem buffer_bytes) ↔ Fits parser s header mem buffer_bytes := by
  by_cases hnum : (mem 0).toNat = 0
  · rw [storePacket, if_pos hnum]
    exact ⟨fun _ hne => absurd (UInt8.toNat_inj.1 hnum) hne, fun _ => ⟨rfl, rfl⟩⟩
  by_cases hroom : s.list.length + (mem 0).toNat < mtuLimiter
  case neg =>
    rw [storePacket, if_neg hnum, if_neg hroom]
    exact ⟨fun _ _ hlt => absurd hlt hroom, fun _ => ⟨rfl, rfl⟩⟩
  have hne : mem 0 ≠ 0 := fun h => hnum (by simp [h])
  rcases storePacket_taken parser header buffer_bytes hnum hroom with
    ⟨lens, recovered, frames, hcuts, hlen, hframes, hret, hlist, hrec, hall⟩ | ⟨hnone, hret, hlist, hheap⟩
  · have hlength : frames.length = lens.length := by rw [hframes, length_framesOf]
    have hflat : (frames.map Frame.sbc_buffer).flatten = read mem 1 lens.sum := by rw [hframes, flatten_framesOf]
    have hnumbers : ∀ k f, frames[k]? = some f → f.curSubSequenceNumber = some k ∧
        f.totalSubSequenceNumber = some (mem 0).toNat ∧ k < lens.length := by
      intro k f hf
      rw [hframes] at hf
      simpa using getElem?_framesOf hf
    have hflatten : (frames.map Frame.sbc_buffer).flatten = (read mem 0 buffer_bytes).drop 1 ↔ lens.sum = buffer_bytes - 1 := by
      rw [hflat, drop_read]
      exact ⟨fun h => by simpa using congrArg List.length h, fun h => by rw [h]⟩
    have htotal : (storePacket parser s header mem buffer_bytes).2.list.length =
        s.list.length + (if lens = [] then 0 else recoverCnt s header (mem 0).toNat) + lens.length := by
      rw [hlist, List.length_append, List.length_append, hrec, hlength, Nat.add_assoc]
    simp only [Stored, hret]
    constructor
    · rintro ⟨recovered', frames', hlist', hall', hflat', hnumbers', hlimit⟩ - - lens' hcuts' -
      obtain rfl := hcuts.unique hcuts'
      -- the copies have no number, so the frames of the list can be read off it
      have hsame : frames = frames' := by
        refine numbered_unique (fun f hf => (hall f hf).1) (fun f hf => (hall' f hf).1) ?_ ?_
          (List.append_cancel_left (hlist.symm.trans hlist'))
        · intro f hf
          obtain ⟨k, hk⟩ := List.mem_iff_getElem?.1 hf
          simp [(hnumbers k f hk).1]
        · intro f hf
          obtain ⟨k, hk⟩ := List.mem_iff_getElem?.1 hf
          simp [(hnumbers' k f hk).1]
      subst hsame
      refine ⟨hflatten.1 hflat', ?_, by rw [← htotal]; exact hlimit⟩
      by_contra hmany
      have hlast := hnumbers' (mem 0).toNat frames[(mem 0).toNat] (List.getElem?_eq_getElem (by omega))
      omega
    · intro hfits
      obtain ⟨hsum, hcount, hlimit⟩ := hfits hne hroom lens hcuts hlen
      refine ⟨recovered, frames, hlist, hall, hflatten.2 hsum, fun k f hf => ?_, by rw [htotal]; exact hlimit⟩
      obtain ⟨hcur, htotal, hk⟩ := hnumbers k f hf
      exact ⟨hcur, htotal, Nat.lt_of_lt_of_le hk hcount⟩
  · simp only [Stored, hret, hlist, hheap, and_self, true_iff]
    intro _ _ lens hcuts hlen
    exact absurd (hnone lens hcuts) (Nat.not_le.2 hlen)

/-! ## Sequences of packets -/

variable (parser)

/-- A packet arrives, or the decoder takes a frame off the list. -/
inductive Event where
  | store (header : Header) (mem : Nat → UInt8) (buffer_bytes : Nat)
  | decode

def step : Event → State P → Option (State P)
  | .store header mem buffer_bytes, s => some (storePacket parser s header mem buffer_bytes).2
  | .decode, s =>
    match s.list with
    | [] => none
    | frame :: list => some (subframeFree { s with list } frame)

def FitsEvent (e : Event) (s : State P) : Prop :=
  match e with
  | .store header mem buffer_bytes => Fits parser s header mem buffer_bytes
  | .decode => True

variable {parser}

theorem Stored.length_le {buffer_bytes : Nat} {r : Ret × State P} (h : Stored s mem buffer_bytes r)
    (hs : s.list.length ≤ mtuLimiter) : r.2.list.length ≤ mtuLimiter := by
  rcases r with ⟨ret, s'⟩
  cases ret with
  | noError =>
    obtain ⟨-, -, -, -, -, -, hlimit⟩ := h
    exact hlimit
  | decodeError | mtuLimterError =>
    rw [h.1]
    exact hs

theorem step_length_le (e : Event) (s s' : State P) (h : s.list.length ≤ mtuLimiter) (hc : FitsEvent parser e s)
    (hs : step parser e s = some s') : s'.list.length ≤ mtuLimiter := by
  cases e with
  | store header mem buffer_bytes =>
    obtain rfl := Option.some.inj hs
    exact ((stored_iff s header mem buffer_bytes).2 hc).length_le h
  | decode =>
    cases hlist : s.list with
    | nil => simp [step, hlist] at hs
    | cons frame list =>
      obtain rfl : subframeFree { s with list } frame = s' := by simpa [step, hlist] using hs
      rw [hlist, List.length_cons] at h
      exact Nat.le_of_succ_le h

/-- For every parser, packet and list: the packet is stored as it should be
exactly if its frames fit; and as long as they do the list keeps to its limit. -/
theorem packets_stored (parser : P → List UInt8 → Option UInt16 × P) :
    (∀ (s : State P) (header : Header) (mem : Nat → UInt8) (buffer_bytes : Nat),
      Stored s mem buffer_bytes (storePacket parser s header mem buffer_bytes) ↔
        Fits parser s header mem buffer_bytes) ∧
    (∀ (s : State P) (evs : List Event), Run (step parser) (FitsEvent parser) (fun s => s.list = []) s evs →
      s.list.length ≤ mtuLimiter) :=
  ⟨stored_iff, fun _ _ h => h.inv (fun s => s.list.length ≤ mtuLimiter) (fun _ hnil => by simp [hnil]) step_length_le⟩

/-- A packet that is taken and has more frames than it says is not stored as it should be. -/
theorem not_stored_of_count {buffer_bytes : Nat} {lens : List Nat} (hne : mem 0 ≠ 0)
    (hroom : s.list.length + (mem 0).toNat < mtuLimiter)
    (hcuts : Cuts parser mem (payloadBytes buffer_bytes) s.preparse 0 lens) (hlen : lens.length < frameListMax)
    (hcount : (mem 0).toNat < lens.length) :
    ¬ Stored s mem buffer_bytes (storePacket parser s header mem buffer_bytes) := by
  intro h
  obtain ⟨-, hle, -⟩ := (stored_iff s header mem buffer_bytes).1 h hne hroom lens hcuts hlen
  exact absurd hle (Nat.not_le.2 hcount)

/-! ## A frame behind the end of the packet -/

/-- A parser of frames that begin with 0x9C and their length. -/
def lengthParser (_ : Unit) (bytes : List UInt8) : Option UInt16 × Unit :=
  let n := (bytes.getD 1 0).toNat
  if 0 < n ∧ n ≤ bytes.length then (some (UInt16.ofNat n), ()) else (none, ())

/-- No list, no heap in use. -/
def empty : State Unit := ⟨[], [], 0, none, ()⟩

/-- A list with room for two frames. -/
def nearlyFull : State Unit := { empty with list := List.replicate 248 ⟨0, 0, 0, none, none, []⟩ }

/-- A packet that says two frames and has two. -/
theorem packets_stored_two : Stored empty (bufferOf [2, 0x9C, 2, 0x9C, 2]) 5
    (storePacket lengthParser empty ⟨1, 0⟩ (bufferOf [2, 0x9C, 2, 0x9C, 2]) 5) := by
  refine ((packets_stored lengthParser).1 empty ⟨1, 0⟩ (bufferOf [2, 0x9C, 2, 0x9C, 2]) 5).2 ?_
  intro _ _ lens hcuts _
  have hcuts' : Cuts lengthParser (bufferOf [2, 0x9C, 2, 0x9C, 2]) (payloadBytes 5) () 0 [2, 2] :=
    .frame (n := 2) (t := ()) (by decide) (by decide) (by decide)
      (.frame (n := 2) (t := ()) (by decide) (by decide) (by decide) (.done (by decide)))
  obtain rfl := hcuts.unique hcuts'
  decide

/-- The parser is given the length of the whole payload at every frame. The
second frame of the first packet says four bytes where two are left, and two
bytes behind the packet are stored with it. The second packet says one frame and
has three, for which there is no room. -/
theorem slice_behind_packet :
    ¬ Stored empty (bufferOf [2, 0x9C, 3, 7, 0x9C, 4]) 6
      (storePacket lengthParser empty ⟨1, 0⟩ (bufferOf [2, 0x9C, 3, 7, 0x9C, 4]) 6) ∧
    ¬ Stored nearlyFull (bufferOf [1, 0x9C, 2, 0x9C, 2, 0x9C, 2]) 7
      (storePacket lengthParser nearlyFull ⟨1, 0⟩ (bufferOf [1, 0x9C, 2, 0x9C, 2, 0x9C, 2]) 7) := by
  constructor
  · intro h
    have hcuts : Cuts lengthParser (bufferOf [2, 0x9C, 3, 7, 0x9C, 4]) (payloadBytes 6) () 0 [3, 4] :=
      .frame (n := 3) (t := ()) (by decide) (by decide) (by decide)
        (.frame (n := 4) (t := ()) (by decide) (by decide) (by decide) (.done (by decide)))
    have hsum := ((stored_iff empty ⟨1, 0⟩ _ 6).1 h (by decide) (by decide) [3, 4] hcuts (by decide)).1
    exact absurd hsum (by decide)
  · have hcuts : Cuts lengthParser (bufferOf [1, 0x9C, 2, 0x9C, 2, 0x9C, 2]) (payloadBytes 7) () 0 [2, 2, 2] :=
      .frame (n := 2) (t := ()) (by decide) (by decide) (by decide)
        (.frame (n := 2) (t := ()) (by decide) (by decide) (by decide)
          (.frame (n := 2) (t := ()) (by decide) (by decide) (by decide) (.done (by decide))))
    have hlen : nearlyFull.list.length = 248 := List.length_replicate ..
    apply not_stored_of_count (by decide) _ hcuts (by decide) (by decide)
    rw [hlen]
    decide

end

end A2dp.Sbc
