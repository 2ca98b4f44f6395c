import LittleBuddy.A2dp.CpIn
import LittleBuddy.A2dp.CpOut
import LittleBuddy.Lib.NorMem
/-!
# Decoding on the coprocessor

`a2dp_cp_sbc_cp_decode` and `a2dp_cp_aac_lc_cp_decode` of
`apps/audioplayers/a2dp_decoder`. Each fills the output frame that it gets with
the PCM of several input frames. When it runs out of these it returns, and the
next call goes on with the same output frame. The loops are taken apart into
their turns, so that the MCU may put a frame between any two of them. What the
decoder answers is part of a turn.

Both rings are taken as `CpIn` and `CpOut` show them to be: the input frames in
order, and the slots of the output frames. No reset is asked for.
-/
open Bytes Runs NorMem
open A2dp.CpOut (DecState idleCnt)

namespace A2dp.CpDecode

/-! ## The code -/

/-- `CP_HEAP_SIZE`, of the larger of the two configurations. All output frames are taken from it. -/
def cpHeapSize : Nat := 1024 * 64

/-- An entry of `out_frames`, with what the frame begins with
(`A2DP_CP_SBC_OUT_FRM_INFO_T`, `A2DP_CP_AAC_LC_OUT_FRM_INFO_T`) and the PCM behind it. -/
structure OutFrame (I : Type) where
  state : DecState
  in_info : I
  frame_samples : UInt16
  decoded_frames : UInt16
  frame_idx : UInt16
  pcm_len : Nat
  pcm : Nat → UInt8

/-- What a call under way knows; `dataLen` is `pcm_data->dataLen`, or `dec_sum`. -/
structure Call where
  dec_len : Nat
  dataLen : Nat
  need_refill : Bool

/-- `ret` is what the last call has returned. `consumed` has the PCM that was
decoded of each input frame when it was consumed, `completed` that of the output
frames, and `lastFailed` is whether the decoder failed at the last attempt. -/
structure Cp (I : Type) where
  in_frames : List I
  cp_in_ridx : Nat
  out_frames : Nat → OutFrame I
  cp_out_widx : Nat
  cp_codec_reset : Bool
  aacDec_handle : Bool
  call : Option Call
  ret : Int
  consumed : List (List UInt8)
  completed : List (List UInt8)
  lastFailed : Bool

variable {I : Type}

/-- The output frame at `cp_out_widx`. -/
def Cp.out (s : Cp I) : OutFrame I := s.out_frames s.cp_out_widx

def Cp.setOut (s : Cp I) (f : OutFrame I) : Cp I :=
  { s with out_frames := Function.update s.out_frames s.cp_out_widx f }

/-- `a2dp_cp_get_emtpy_out_frame`, and what both functions do when it is a new one. -/
def getEmtpyOutFrame (s : Cp I) : Option (Cp I) :=
  match s.out.state with
  | .idle => some (s.setOut { s.out with state := .working, pcm_len := 0, decoded_frames := 0 })
  | .working => some s
  | .done | .initDone => none

/-- `a2dp_cp_consume_emtpy_out_frame`; that it fails is an assertion. -/
def consumeEmtpyOutFrame (s : Cp I) : Option (Cp I) :=
  if s.out.state = .working then
    some { s.setOut { s.out with state := .done } with
      cp_out_widx := CpOut.nextIdx s.cp_out_widx
      completed := s.completed ++ [read s.out.pcm 0 s.out.pcm_len] }
  else none

/-- `a2dp_cp_consume_in_frame`, of a frame with this PCM. -/
def consumeInFrame (pcm : List UInt8) (s : Cp I) : Cp I :=
  { s with in_frames := s.in_frames.tail, cp_in_ridx := CpIn.nextIdx s.cp_in_ridx, consumed := s.consumed ++ [pcm] }

/-- The decoder writes behind what it has written in this call. -/
def writePcm (pcm : List UInt8) (c : Call) (s : Cp I) : Cp I :=
  s.setOut { s.out with pcm := memcpy s.out.pcm (s.out.pcm_len + c.dataLen) (bufferOf pcm) pcm.length }

/-- What both functions note of an input frame. -/
def noteFrame (info : I) (frame_samples : Nat) (s : Cp I) : Cp I :=
  s.setOut { s.out with
    in_info := info
    decoded_frames := s.out.decoded_frames + 1
    frame_samples := .ofNat frame_samples
    frame_idx := .ofNat s.cp_in_ridx }

/-- `p_out_info->pcm_len += dataLen`, on a `uint16_t`. -/
def addPcmLen (c : Call) (s : Cp I) : Cp I :=
  s.setOut { s.out with pcm_len := (s.out.pcm_len + c.dataLen) % 2 ^ 16 }

/-- The test of the loop, and what follows it. -/
def goOn (buffer_bytes : Nat) (error : Bool) (c : Call) (s : Cp I) : Option (Cp I) :=
  if c.dataLen < c.dec_len ∧ error = false then some { s with call := some c }
  else
    let s := { addPcmLen c s with call := none, ret := if error then 1 else 0 }
    if error = true ∨ buffer_bytes ≤ s.out.pcm_len then consumeEmtpyOutFrame s else some s

/-! ### SBC -/

/-- `bt_status_t`, as far as `btif_sbc_decode_frames` is asked for it. -/
inductive SbcStatus where
  | success | goesOn | noResources | failed
  deriving DecidableEq

/-- What `btif_sbc_decode_frames` answers, and `maxPcmLen` then. -/
structure SbcAnswer where
  status : SbcStatus
  pcm : List UInt8
  maxPcmLen : Nat

/-- `a2dp_cp_sbc_cp_decode` up to its loop. -/
def sbcEnter (buffer_bytes : Nat) (s : Cp I) : Option (Cp I) :=
  match getEmtpyOutFrame { s with cp_codec_reset := false } with
  | none => some { s with cp_codec_reset := false, ret := 1 }
  | some s =>
    if s.out.pcm_len < buffer_bytes then some { s with call := some ⟨buffer_bytes - s.out.pcm_len, 0, false⟩ }
    else none

/-- A turn of the loop of `a2dp_cp_sbc_cp_decode`. -/
def sbcTurn (buffer_bytes : Nat) (a : SbcAnswer) (s : Cp I) : Option (Cp I) :=
  match s.call, s.in_frames with
  | none, _ => none
  | some c, [] => some { addPcmLen c s with call := none, ret := 4 }
  | some c, info :: _ =>
    let s := consumeInFrame a.pcm (noteFrame info (a.maxPcmLen / 4) (writePcm a.pcm c s))
    let c := { c with dataLen := c.dataLen + a.pcm.length }
    match a.status with
    | .noResources => none
    | .success | .goesOn => goOn buffer_bytes false c s
    | .failed => goOn buffer_bytes true c s

/-! ### AAC -/

/-- `A2DP_CP_AAC_LC_IN_FRM_INFO_T`. -/
structure AacInInfo where
  sequenceNumber : UInt16
  timestamp : UInt32

/-- What `aacDecoder_Fill`, `aacDecoder_DecodeFrame` and `aacDecoder_GetStreamInfo`
answer. -/
inductive AacAnswer where
  | fillFailed
  | decodeFailed
  | noStreamInfo
  | decoded (pcm : List UInt8)

/-- `AAC_OUTPUT_FRAME_SAMPLES` and `DECODE_AAC_PCM_FRAME_LENGTH`. -/
def aacOutputFrameSamples : Nat := 1024

def decodeAacPcmFrameLength : Nat := 2048

/-- `a2dp_cp_aac_lc_cp_decode` up to its loop. -/
def aacEnter (buffer_bytes : Nat) (s : Cp I) : Option (Cp I) :=
  let s := if s.cp_codec_reset then { s with cp_codec_reset := false, aacDec_handle := true } else s
  match getEmtpyOutFrame s with
  | none => some { s with ret := 1 }
  | some s =>
    if s.out.pcm_len < buffer_bytes then
      let dec_len := buffer_bytes - s.out.pcm_len
      if dec_len < decodeAacPcmFrameLength then some { s with ret := 2 }
      else if !s.aacDec_handle then some { s with ret := 3 }
      else some { s with call := some ⟨dec_len, 0, false⟩ }
    else none

/-- `end_decode`. -/
def endDecode (buffer_bytes : Nat) (info : AacInInfo) (pcm : List UInt8) (error : Bool) (c : Call) (s : Cp AacInInfo) :
    Option (Cp AacInInfo) :=
  let s := noteFrame info aacOutputFrameSamples s
  goOn buffer_bytes error c (if c.need_refill then s else consumeInFrame pcm s)

/-- A turn of the loop of `a2dp_cp_aac_lc_cp_decode`. -/
def aacTurn (buffer_bytes : Nat) (a : AacAnswer) (s : Cp AacInInfo) : Option (Cp AacInInfo) :=
  match s.call, s.in_frames with
  | none, _ => none
  | some _, [] => some { s with call := none, ret := 4 }
  | some c, info :: rest =>
    let info := if c.need_refill then { info with sequenceNumber := 0xFFFF } else info
    let s := { s with in_frames := info :: rest }
    match a with
    | .fillFailed | .noStreamInfo => endDecode buffer_bytes info [] true c s
    | .decodeFailed =>
      let s := { s with lastFailed := true }
      if c.need_refill then endDecode buffer_bytes info [] true { c with need_refill := false } s
      else some { consumeInFrame [] s with call := some { c with need_refill := true } }
    | .decoded pcm =>
      if pcm.length / 4 = aacOutputFrameSamples then
        endDecode buffer_bytes info pcm false { c with dataLen := c.dataLen + pcm.length }
          { writePcm pcm c s with lastFailed := false }
      else none

/-! ### Runs -/

/-- The MCU puts an input frame, frees an output frame, or asks for a new codec;
or the CP calls the decoder, or goes on with the loop. -/
inductive Event (I A : Type) where
  | put (info : I)
  | free (i : Nat)
  | codecReset
  | enter
  | turn (answer : A)

/-- The MCU has consumed an output frame. -/
def freeOutFrame (i : Nat) (s : Cp I) : Cp I :=
  { s with out_frames := Function.update s.out_frames i { s.out_frames i with state := .idle } }

def step {A : Type} (enter : Cp I → Option (Cp I)) (turn : A → Cp I → Option (Cp I)) :
    Event I A → Cp I → Option (Cp I)
  | .put info, s => some { s with in_frames := s.in_frames ++ [info] }
  | .free i, s =>
    if (s.out_frames i).state = .done ∨ (s.out_frames i).state = .initDone then some (freeOutFrame i s) else none
  | .codecReset, s => some { s with cp_codec_reset := true }
  | .enter, s => if s.call.isNone then enter s else none
  | .turn answer, s => turn answer s

def sbcStep (buffer_bytes : Nat) : Event I SbcAnswer → Cp I → Option (Cp I) :=
  step (sbcEnter buffer_bytes) (sbcTurn buffer_bytes)

def aacStep (buffer_bytes : Nat) : Event AacInInfo AacAnswer → Cp AacInInfo → Option (Cp AacInInfo) :=
  step (aacEnter buffer_bytes) (aacTurn buffer_bytes)

/-- After `a2dp_cp_decoder_init`, with a codec that is to be set up. -/
def Start (delay : Nat) (s : Cp I) : Prop :=
  s.in_frames = [] ∧ s.cp_out_widx = 0 ∧ s.cp_codec_reset = true ∧ s.call = none ∧ s.consumed = [] ∧
    s.completed = [] ∧ s.lastFailed = false ∧
    ∀ i, (s.out_frames i).state = if i < idleCnt delay then .idle else .initDone

/-- After `a2dp_cp_decoder_init` without a delay. -/
def blank (info : I) : Cp I :=
  { in_frames := [], cp_in_ridx := 0
    out_frames := fun i => ⟨if i < idleCnt 0 then .idle else .initDone, info, 0, 0, 0, 0, fun _ => 0⟩
    cp_out_widx := 0, cp_codec_reset := true, aacDec_handle := false, call := none, ret := 0
    consumed := [], completed := [], lastFailed := false }

theorem start_blank (info : I) : Start 0 (blank info) := ⟨rfl, rfl, rfl, rfl, rfl, rfl, rfl, fun _ => rfl⟩

/-- How many bytes of the output frame at `cp_out_widx` are recorded in it, and are filled. -/
def Cp.recorded (s : Cp I) : Nat := if s.out.state = .working then s.out.pcm_len else 0

def Cp.filled (s : Cp I) : Nat :=
  match s.call with
  | some c => s.out.pcm_len + c.dataLen
  | none => s.recorded

/-! ## What the calls account for -/

/-- The PCM in the output frames, against the input frames. -/
structure Account where
  need_refill : Bool
  filled : Nat
  pcm : Nat → UInt8
  consumed : List (List UInt8)
  completed : List (List UInt8)
  lastFailed : Bool

def Cp.account (s : Cp I) : Account :=
  { need_refill := s.call.any Call.need_refill
    filled := s.filled
    pcm := s.out.pcm
    consumed := s.consumed
    completed := s.completed
    lastFailed := s.lastFailed }

/-- The account in a call that knows `c`. -/
def Cp.accountIn (c : Call) (s : Cp I) : Account :=
  { need_refill := c.need_refill
    filled := s.out.pcm_len + c.dataLen
    pcm := s.out.pcm
    consumed := s.consumed
    completed := s.completed
    lastFailed := s.lastFailed }

/-- The output frame is full and has been completed; what the next one has in it does not count. -/
def Account.complete (a : Account) (pcm : Nat → UInt8) : Account :=
  { a with need_refill := false, filled := 0, pcm := pcm, completed := a.completed ++ [read a.pcm 0 a.filled] }

theorem account_call {s : Cp I} {c : Call} (h : s.call = some c) : s.account = s.accountIn c := by
  rw [Cp.account, Cp.filled, h]
  rfl

theorem account_rest {s : Cp I} (h : s.call = none) :
    s.account = ⟨false, s.recorded, s.out.pcm, s.consumed, s.completed, s.lastFailed⟩ := by
  rw [Cp.account, Cp.filled, h]
  rfl

/-! ## Output frames -/

section Frames

variable (s : Cp I) (f : OutFrame I)

@[simp] theorem setOut_out : (s.setOut f).out = f := Function.update_self ..

omit f in
theorem setOut_self {s : Cp I} {c : Call} (h : c.dataLen = 0) :
    s.setOut { s.out with pcm_len := s.out.pcm_len + c.dataLen } = s := by
  rw [h, Nat.add_zero, Cp.setOut, Cp.out, Function.update_eq_self]

theorem setOut_other {i : Nat} (h : i ≠ s.cp_out_widx) : (s.setOut f).out_frames i = s.out_frames i :=
  Function.update_of_ne h ..

/-- The output frame behind a decoded input frame. -/
theorem noted_out (info : I) (frame_samples : Nat) (pcm : List UInt8) (c : Call) :
    (noteFrame info frame_samples (writePcm pcm c s)).out =
      { s.out with
        pcm := memcpy s.out.pcm (s.out.pcm_len + c.dataLen) (bufferOf pcm) pcm.length
        in_info := info
        decoded_frames := s.out.decoded_frames + 1
        frame_samples := .ofNat frame_samples
        frame_idx := .ofNat s.cp_in_ridx } := by
  rw [noteFrame, setOut_out, writePcm, setOut_out]
  rfl

theorem noted_other (info : I) (frame_samples : Nat) (pcm : List UInt8) (c : Call) {i : Nat} (h : i ≠ s.cp_out_widx) :
    (noteFrame info frame_samples (writePcm pcm c s)).out_frames i = s.out_frames i :=
  (setOut_other (writePcm pcm c s) _ h).trans (setOut_other s _ h)

end Frames

/-- A call has got an output frame: the one that is partly filled, or an empty one. -/
structure Got (s s' : Cp I) : Prop where
  state : s'.out.state = .working
  pcm_len : s'.out.pcm_len = if s.out.state = .working then s.out.pcm_len else 0
  pcm : s'.out.pcm = s.out.pcm
  widx : s'.cp_out_widx = s.cp_out_widx
  other : ∀ i, i ≠ s.cp_out_widx → s'.out_frames i = s.out_frames i
  call : s'.call = s.call
  aacDec_handle : s'.aacDec_handle = s.aacDec_handle
  consumed : s'.consumed = s.consumed
  completed : s'.completed = s.completed
  lastFailed : s'.lastFailed = s.lastFailed

theorem getEmtpyOutFrame_got {s s' : Cp I} (h : getEmtpyOutFrame s = some s') : Got s s' := by
  unfold getEmtpyOutFrame at h
  split at h
  · rename_i hstate
    cases h
    refine ⟨?_, ?_, ?_, rfl, fun i hi => setOut_other _ _ hi, rfl, rfl, rfl, rfl, rfl⟩
    · rw [setOut_out]
    · rw [setOut_out, hstate]
      rfl
    · rw [setOut_out]
  · rename_i hstate
    cases h
    exact ⟨hstate, (if_pos hstate).symm, rfl, rfl, fun _ _ => rfl, rfl, rfl, rfl, rfl, rfl⟩
  · cases h
  · cases h

/-! ### A frame that is being filled -/

/-- Between two calls only the frame at `cp_out_widx` may be partly filled, with
whole frames of `k` bytes. -/
structure Paused (buffer_bytes k : Nat) (s : Cp I) : Prop where
  working : ∀ i, (s.out_frames i).state = .working → i = s.cp_out_widx
  level : s.out.state = .working → s.out.pcm_len < buffer_bytes ∧ k ∣ s.out.pcm_len

/-- What a call that knows `c` has in hand. -/
structure Filling (buffer_bytes k : Nat) (c : Call) (s : Cp I) : Prop where
  working : ∀ i, (s.out_frames i).state = .working ↔ i = s.cp_out_widx
  room : s.out.pcm_len + c.dec_len = buffer_bytes
  level : c.dataLen ≤ c.dec_len ∧ k ∣ s.out.pcm_len ∧ k ∣ c.dataLen

/-- A call may begin, with `call` to go on with. -/
structure Entered (buffer_bytes k : Nat) (s s' : Cp I) : Prop where
  paused : Paused buffer_bytes k s'
  recorded : s'.recorded = s.recorded
  pcm : s'.out.pcm = s.out.pcm
  consumed : s'.consumed = s.consumed
  completed : s'.completed = s.completed
  lastFailed : s'.lastFailed = s.lastFailed
  call : s'.call = none ∨ s'.call = some ⟨buffer_bytes - s'.out.pcm_len, 0, false⟩ ∧ s'.out.state = .working ∧
    s'.out.pcm_len < buffer_bytes

/-- A call under way has room left. -/
def Shape (buffer_bytes k : Nat) (s : Cp I) : Prop :=
  match s.call with
  | none => Paused buffer_bytes k s
  | some c => Filling buffer_bytes k c s ∧ c.dataLen < c.dec_len

section Filling

variable {buffer_bytes k : Nat} {s s' : Cp I} {c : Call}

theorem Filling.out (h : Filling buffer_bytes k c s) : s.out.state = .working := (h.working s.cp_out_widx).2 rfl

theorem Shape.paused (h : Shape buffer_bytes k s) (hcall : s.call = none) : Paused buffer_bytes k s := by
  rwa [Shape, hcall] at h

theorem Shape.filling (h : Shape buffer_bytes k s) (hcall : s.call = some c) :
    Filling buffer_bytes k c s ∧ c.dataLen < c.dec_len := by
  rwa [Shape, hcall] at h

theorem Shape.of_paused (h : Paused buffer_bytes k s) (hcall : s.call = none) : Shape buffer_bytes k s := by
  rwa [Shape, hcall]

theorem Shape.of_filling (h : Filling buffer_bytes k c s) (hlt : c.dataLen < c.dec_len) (hcall : s.call = some c) :
    Shape buffer_bytes k s := by
  rw [Shape, hcall]
  exact ⟨h, hlt⟩

/-- Nothing else counts of a state. -/
theorem Paused.congr (h : Paused buffer_bytes k s) (hout : s'.out_frames = s.out_frames)
    (hwidx : s'.cp_out_widx = s.cp_out_widx) : Paused buffer_bytes k s' := by
  constructor
  · rw [hout, hwidx]
    exact h.working
  · rw [Cp.out, hout, hwidx]
    exact h.level

theorem Filling.congr (h : Filling buffer_bytes k c s) (hout : s'.out_frames = s.out_frames)
    (hwidx : s'.cp_out_widx = s.cp_out_widx) : Filling buffer_bytes k c s' := by
  constructor
  · rw [hout, hwidx]
    exact h.working
  · rw [Cp.out, hout, hwidx]
    exact h.room
  · rw [Cp.out, hout, hwidx]
    exact h.level

theorem Start.not_working {delay : Nat} (h : Start delay s) (i : Nat) : (s.out_frames i).state ≠ .working := by
  obtain ⟨-, -, -, -, -, -, -, hstate⟩ := h
  rw [hstate]
  split <;> exact DecState.noConfusion

theorem Start.paused {delay : Nat} (h : Start delay s) : Paused buffer_bytes k s :=
  ⟨fun i hi => absurd hi (h.not_working i), fun hi => absurd hi (h.not_working _)⟩

/-! ### The MCU -/

theorem freeOutFrame_self (i : Nat) (s : Cp I) :
    (freeOutFrame i s).out_frames i = { s.out_frames i with state := .idle } := Function.update_self ..

theorem freeOutFrame_other {i j : Nat} (h : j ≠ i) (s : Cp I) : (freeOutFrame i s).out_frames j = s.out_frames j :=
  Function.update_of_ne h ..

section Free

variable {i : Nat} (hi : (s.out_frames i).state = .done ∨ (s.out_frames i).state = .initDone)

include hi

/-- A frame that the MCU frees is not the one that is being filled. -/
theorem freeOutFrame_working (j : Nat) :
    ((freeOutFrame i s).out_frames j).state = .working ↔ (s.out_frames j).state = .working := by
  by_cases hij : j = i
  · have hother : (s.out_frames i).state ≠ .working := by
      rcases hi with hi | hi <;> rw [hi] <;> exact DecState.noConfusion
    rw [hij, freeOutFrame_self]
    exact ⟨fun h => DecState.noConfusion h, fun h => absurd h hother⟩
  · rw [freeOutFrame_other hij]

theorem freeOutFrame_out (h : s.out.state = .working) : (freeOutFrame i s).out = s.out := by
  have hne : s.cp_out_widx ≠ i := by
    intro heq
    rw [Cp.out, heq] at h
    rcases hi with hi | hi <;> rw [hi] at h <;> cases h
  exact freeOutFrame_other hne s

omit hi in
theorem freeOutFrame_pcm : (freeOutFrame i s).out.pcm = s.out.pcm := by
  by_cases hne : s.cp_out_widx = i
  · have hself := congrArg OutFrame.pcm (freeOutFrame_self i s)
    rw [← hne] at hself ⊢
    exact hself
  · exact congrArg OutFrame.pcm (freeOutFrame_other hne s)

theorem freeOutFrame_recorded : (freeOutFrame i s).recorded = s.recorded := by
  have hworking : (freeOutFrame i s).out.state = .working ↔ s.out.state = .working :=
    freeOutFrame_working hi s.cp_out_widx
  unfold Cp.recorded
  by_cases hw : s.out.state = .working
  · rw [freeOutFrame_out hi hw]
  · rw [if_neg hw, if_neg (fun h => hw (hworking.1 h))]

theorem Paused.free (h : Paused buffer_bytes k s) : Paused buffer_bytes k (freeOutFrame i s) := by
  constructor
  · intro j hj
    exact h.working j ((freeOutFrame_working hi j).1 hj)
  · intro hw
    have hw : s.out.state = .working := (freeOutFrame_working hi s.cp_out_widx).1 hw
    rw [freeOutFrame_out hi hw]
    exact h.level hw

theorem Filling.free (h : Filling buffer_bytes k c s) : Filling buffer_bytes k c (freeOutFrame i s) := by
  have hout := freeOutFrame_out hi h.out
  constructor
  · intro j
    exact (freeOutFrame_working hi j).trans (h.working j)
  · rw [hout]
    exact h.room
  · rw [hout]
    exact h.level

end Free

/-! ### The calls -/

/-- The call has an output frame, with a recorded length below its size. -/
theorem Paused.got (h : Paused buffer_bytes k s) (hgot : Got s s') (hlen : s'.out.pcm_len < buffer_bytes) :
    Paused buffer_bytes k s' := by
  constructor
  · intro i hi
    rw [hgot.widx]
    by_cases hne : i = s.cp_out_widx
    · exact hne
    · rw [hgot.other i hne] at hi
      exact h.working i hi
  · intro _
    refine ⟨hlen, ?_⟩
    rw [hgot.pcm_len]
    split
    · exact (h.level ‹_›).2
    · exact Nat.dvd_zero k

theorem Got.recorded (h : Got s s') : s'.recorded = s.recorded := by
  rw [Cp.recorded, if_pos h.state, h.pcm_len]
  rfl

theorem sbcEnter_entered (h : Paused buffer_bytes k s) (hcall : s.call = none)
    (hstep : sbcEnter buffer_bytes s = some s') : Entered buffer_bytes k s s' := by
  unfold sbcEnter at hstep
  split at hstep
  · cases hstep
    exact ⟨h.congr rfl rfl, rfl, rfl, rfl, rfl, rfl, .inl hcall⟩
  · rename_i s₁ hget
    have hgot := getEmtpyOutFrame_got hget
    split at hstep
    · rename_i hlen
      cases hstep
      have hpaused : Paused buffer_bytes k { s with cp_codec_reset := false } := h.congr rfl rfl
      exact ⟨(hpaused.got hgot hlen).congr rfl rfl, hgot.recorded, hgot.pcm, hgot.consumed, hgot.completed,
        hgot.lastFailed, .inr ⟨rfl, hgot.state, hlen⟩⟩
    · cases hstep

theorem aacEnter_entered (h : Paused buffer_bytes k s) (hcall : s.call = none)
    (hstep : aacEnter buffer_bytes s = some s') : Entered buffer_bytes k s s' := by
  unfold aacEnter at hstep
  dsimp only at hstep
  generalize hs₀ : (if s.cp_codec_reset = true then { s with cp_codec_reset := false, aacDec_handle := true } else s) =
    s₀ at hstep
  have h₀ : Entered buffer_bytes k s s₀ ∧ s₀.call = none := by
    rw [← hs₀]
    split
    · exact ⟨⟨h.congr rfl rfl, rfl, rfl, rfl, rfl, rfl, .inl hcall⟩, hcall⟩
    · exact ⟨⟨h, rfl, rfl, rfl, rfl, rfl, .inl hcall⟩, hcall⟩
  obtain ⟨h₀, hcall₀⟩ := h₀
  split at hstep
  · cases hstep
    exact ⟨h₀.paused.congr rfl rfl, h₀.recorded, h₀.pcm, h₀.consumed, h₀.completed, h₀.lastFailed,
      .inl hcall₀⟩
  · rename_i s₁ hget
    have hgot := getEmtpyOutFrame_got hget
    split at hstep
    case isFalse => cases hstep
    rename_i hlen
    -- The call has the output frame, and may still be refused.
    have hentered : Entered buffer_bytes k s s₁ := ⟨h₀.paused.got hgot hlen, hgot.recorded.trans h₀.recorded,
      hgot.pcm.trans h₀.pcm, hgot.consumed.trans h₀.consumed, hgot.completed.trans h₀.completed,
      hgot.lastFailed.trans h₀.lastFailed, .inl (hgot.call.trans hcall₀)⟩
    have hcall₁ := hgot.call.trans hcall₀
    split at hstep
    · cases hstep
      exact ⟨hentered.paused.congr rfl rfl, hentered.recorded, hentered.pcm, hentered.consumed, hentered.completed,
        hentered.lastFailed, .inl hcall₁⟩
    split at hstep
    · cases hstep
      exact ⟨hentered.paused.congr rfl rfl, hentered.recorded, hentered.pcm, hentered.consumed, hentered.completed,
        hentered.lastFailed, .inl hcall₁⟩
    · cases hstep
      exact ⟨hentered.paused.congr rfl rfl, hentered.recorded, hentered.pcm, hentered.consumed, hentered.completed,
        hentered.lastFailed, .inr ⟨rfl, hgot.state, hlen⟩⟩

/-- The loop begins where the last call has stopped. -/
theorem Paused.filling (h : Paused buffer_bytes k s) (hout : s.out.state = .working) (need_refill : Bool) :
    Filling buffer_bytes k ⟨buffer_bytes - s.out.pcm_len, 0, need_refill⟩ s := by
  have hlevel := h.level hout
  refine ⟨?_, ?_, ⟨Nat.zero_le _, hlevel.2, Nat.dvd_zero k⟩⟩
  · intro i
    constructor
    · exact h.working i
    · rintro rfl
      exact hout
  · exact Nat.add_sub_cancel' (Nat.le_of_lt hlevel.1)

/-- The PCM of a frame fits behind what has been decoded. -/
theorem Filling.fits (h : Filling buffer_bytes k c s) (hlt : c.dataLen < c.dec_len) (hdvd : k ∣ buffer_bytes) :
    c.dataLen + k ≤ c.dec_len := by
  obtain ⟨-, hpcm, hdata⟩ := h.level
  have hlen : k ∣ c.dec_len := by
    rw [← h.room] at hdvd
    exact (Nat.dvd_add_right hpcm).1 hdvd
  have hle := Nat.le_of_dvd (Nat.sub_pos_of_lt hlt) (Nat.dvd_sub hlen hdata)
  omega

theorem Filling.noted (h : Filling buffer_bytes k c s) (hlt : c.dataLen < c.dec_len) (hdvd : k ∣ buffer_bytes)
    {pcm : List UInt8} (hlen : pcm.length = k) (info : I) (frame_samples : Nat) :
    Filling buffer_bytes k { c with dataLen := c.dataLen + pcm.length }
      (noteFrame info frame_samples (writePcm pcm c s)) := by
  have hfits := h.fits hlt hdvd
  obtain ⟨-, hpcm, hdata⟩ := h.level
  have hout := noted_out s info frame_samples pcm c
  refine ⟨?_, ?_, ?_, ?_, ?_⟩
  · intro i
    change _ ↔ i = s.cp_out_widx
    rw [← h.working i]
    by_cases hi : i = s.cp_out_widx
    · rw [hi]
      change (noteFrame _ _ _).out.state = .working ↔ s.out.state = .working
      rw [hout]
    · rw [noted_other _ _ _ _ _ hi]
  · rw [hout]
    exact h.room
  · rw [hlen]
    exact hfits
  · rw [hout]
    exact hpcm
  · rw [hlen]
    exact Nat.dvd_add hdata (Nat.dvd_refl k)

/-- The recorded length does not wrap. -/
theorem Filling.addPcmLen (h : Filling buffer_bytes k c s) (hheap : buffer_bytes < 2 ^ 16) :
    addPcmLen c s = s.setOut { s.out with pcm_len := s.out.pcm_len + c.dataLen } := by
  have hle := h.level.1
  have hroom := h.room
  rw [CpDecode.addPcmLen, Nat.mod_eq_of_lt (by omega)]

/-- The call stops before the output frame is full. -/
theorem Filling.paused (h : Filling buffer_bytes k c s) (hlt : c.dataLen < c.dec_len) :
    Paused buffer_bytes k (s.setOut { s.out with pcm_len := s.out.pcm_len + c.dataLen }) := by
  have hroom := h.room
  obtain ⟨-, hpcm, hdata⟩ := h.level
  constructor
  · intro i hi
    by_cases hne : i = s.cp_out_widx
    · exact hne
    · rw [setOut_other _ _ hne] at hi
      exact (h.working i).1 hi
  · intro _
    rw [setOut_out]
    exact ⟨by dsimp only; omega, Nat.dvd_add hpcm hdata⟩

/-- The call stops with what it has decoded recorded. -/
theorem Filling.underflow (h : Filling buffer_bytes k c s) (hlt : c.dataLen < c.dec_len)
    (hs' : s' = { s.setOut { s.out with pcm_len := s.out.pcm_len + c.dataLen } with call := none, ret := 4 }) :
    Shape buffer_bytes k s' ∧ s'.account = { s.accountIn c with need_refill := false } := by
  have hout : s'.out = { s.out with pcm_len := s.out.pcm_len + c.dataLen } := by
    rw [hs']
    exact setOut_out s { s.out with pcm_len := s.out.pcm_len + c.dataLen }
  have hcall : s'.call = none := by rw [hs']
  have hpaused : Paused buffer_bytes k s' := by
    rw [hs']
    exact (h.paused hlt).congr rfl rfl
  refine ⟨.of_paused hpaused hcall, ?_⟩
  rw [account_rest hcall, Cp.recorded, hout, if_pos h.out, hs']
  rfl

/-- A full output frame is completed. -/
theorem consumeEmtpyOutFrame_account (hworking : ∀ i, (s.out_frames i).state = .working ↔ i = s.cp_out_widx)
    (hcall : s.call = none) (hstep : consumeEmtpyOutFrame s = some s') :
    Shape buffer_bytes k s' ∧ s'.account = s.account.complete s'.out.pcm := by
  have hout : s.out.state = .working := (hworking s.cp_out_widx).2 rfl
  rw [consumeEmtpyOutFrame, if_pos hout, Option.some.injEq] at hstep
  have hnone : ∀ i, (s'.out_frames i).state ≠ .working := by
    intro i
    rw [← hstep]
    change ((s.setOut { s.out with state := .done }).out_frames i).state ≠ .working
    by_cases hi : i = s.cp_out_widx
    · rw [hi]
      change (s.setOut _).out.state ≠ .working
      rw [setOut_out]
      exact DecState.noConfusion
    · rw [setOut_other _ _ hi]
      exact fun hw => hi ((hworking i).1 hw)
  have hcall' : s'.call = none := by
    rw [← hstep]
    exact hcall
  have hstate : s'.out.state ≠ .working := hnone s'.cp_out_widx
  refine ⟨.of_paused ⟨fun i hi => absurd hi (hnone i), fun hw => absurd hw hstate⟩ hcall', ?_⟩
  rw [account_rest hcall, account_rest hcall', Account.complete, Cp.recorded, Cp.recorded, if_neg hstate, if_pos hout]
  rw [← hstep]
  rfl

/-- The loop goes on, or the output frame is full. -/
theorem Filling.goOn (h : Filling buffer_bytes k c s) (hheap : buffer_bytes < 2 ^ 16)
    (hstep : goOn buffer_bytes false c s = some s') :
    Shape buffer_bytes k s' ∧
    ((s.accountIn c).filled < buffer_bytes ∧ s'.account = s.accountIn c ∨
      (s.accountIn c).filled = buffer_bytes ∧ s'.account = (s.accountIn c).complete s'.out.pcm) := by
  have hroom := h.room
  have hle := h.level.1
  rw [CpDecode.goOn] at hstep
  by_cases hlt : c.dataLen < c.dec_len
  · rw [if_pos ⟨hlt, rfl⟩, Option.some.injEq] at hstep
    subst hstep
    have hroom : (s.accountIn c).filled < buffer_bytes := by
      simp only [Cp.accountIn]
      omega
    exact ⟨.of_filling (h.congr rfl rfl) hlt rfl, .inl ⟨hroom, account_call rfl⟩⟩
  · rw [if_neg (fun h => hlt h.1)] at hstep
    have hfull : s.out.pcm_len + c.dataLen = buffer_bytes := by omega
    rw [h.addPcmLen hheap, hfull] at hstep
    dsimp only at hstep
    generalize hfilled : ({ s.setOut { s.out with pcm_len := buffer_bytes } with
      call := none, ret := if false then 1 else 0 } : Cp I) = filled at hstep
    have hout : filled.out = { s.out with pcm_len := buffer_bytes } := by
      rw [← hfilled]
      exact setOut_out s { s.out with pcm_len := buffer_bytes }
    have hcall : filled.call = none := by rw [← hfilled]
    have hworking : ∀ i, (filled.out_frames i).state = .working ↔ i = filled.cp_out_widx := by
      intro i
      rw [← hfilled]
      change ((s.setOut _).out_frames i).state = .working ↔ i = s.cp_out_widx
      by_cases hi : i = s.cp_out_widx
      · rw [hi]
        change (s.setOut _).out.state = .working ↔ _
        rw [setOut_out]
        exact ⟨fun _ => rfl, fun _ => h.out⟩
      · rw [setOut_other _ _ hi]
        exact h.working i
    rw [if_pos (.inr (by rw [hout]))] at hstep
    obtain ⟨hshape, haccount⟩ := consumeEmtpyOutFrame_account (k := k) hworking hcall hstep
    refine ⟨hshape, .inr ⟨hfull, ?_⟩⟩
    rw [haccount, account_rest hcall, Cp.recorded, hout, if_pos h.out, Cp.accountIn, hfull, ← hfilled]
    rfl

/-- The output frame at hand is the one to complete. -/
theorem Filling.goOn_some (h : Filling buffer_bytes k c s) : ∃ s', CpDecode.goOn buffer_bytes false c s = some s' := by
  unfold CpDecode.goOn
  split
  · exact ⟨_, rfl⟩
  · dsimp only
    generalize hs₁ : ({ CpDecode.addPcmLen c s with call := none, ret := if false = true then 1 else 0 } : Cp I) = s₁
    have hstate : s₁.out.state = .working := by
      have hout := congrArg OutFrame.state (setOut_out s { s.out with pcm_len := (s.out.pcm_len + c.dataLen) % 2 ^ 16 })
      rw [← hs₁, ← h.out]
      exact hout
    split
    · exact ⟨_, if_pos hstate⟩
    · exact ⟨_, rfl⟩

/-! ### All other steps -/

theorem Entered.account (h : Entered buffer_bytes k s s') (hcall : s.call = none) : s'.account = s.account := by
  rw [account_rest hcall]
  rcases h.call with hcall' | ⟨hcall', hstate, -⟩
  · rw [account_rest hcall', h.recorded, h.pcm, h.consumed, h.completed, h.lastFailed]
  · have hrecorded := h.recorded
    rw [Cp.recorded, if_pos hstate] at hrecorded
    rw [account_call hcall', Cp.accountIn, hrecorded, h.pcm, h.consumed, h.completed, h.lastFailed]
    rfl

theorem Entered.shape (h : Entered buffer_bytes k s s') : Shape buffer_bytes k s' := by
  rcases h.call with hcall | ⟨hcall, hstate, hlt⟩
  · exact .of_paused h.paused hcall
  · exact .of_filling (h.paused.filling hstate false) (Nat.sub_pos_of_lt hlt) hcall

theorem Shape.congr (h : Shape buffer_bytes k s) (hout : s'.out_frames = s.out_frames)
    (hwidx : s'.cp_out_widx = s.cp_out_widx) (hcall : s'.call = s.call) : Shape buffer_bytes k s' := by
  cases hc : s.call with
  | none => exact .of_paused ((h.paused hc).congr hout hwidx) (hcall.trans hc)
  | some c =>
    obtain ⟨hfilling, hlt⟩ := h.filling hc
    exact .of_filling (hfilling.congr hout hwidx) hlt (hcall.trans hc)

theorem Shape.free (h : Shape buffer_bytes k s) {i : Nat}
    (hi : (s.out_frames i).state = .done ∨ (s.out_frames i).state = .initDone) :
    Shape buffer_bytes k (freeOutFrame i s) ∧ (freeOutFrame i s).account = s.account := by
  cases hcall : s.call with
  | none =>
    have hcall' : (freeOutFrame i s).call = none := hcall
    refine ⟨.of_paused ((h.paused hcall).free hi) hcall', ?_⟩
    rw [account_rest hcall, account_rest hcall', freeOutFrame_recorded hi, freeOutFrame_pcm]
    rfl
  | some c =>
    obtain ⟨hfilling, hlt⟩ := h.filling hcall
    have hcall' : (freeOutFrame i s).call = some c := hcall
    refine ⟨.of_filling (hfilling.free hi) hlt hcall', ?_⟩
    rw [account_call hcall, account_call hcall', Cp.accountIn, freeOutFrame_out hi hfilling.out]
    rfl

/-- What the turns of a decoder keep of the account is kept by all steps. -/
theorem step_account {A : Type} {enter : Cp I → Option (Cp I)} {turn : A → Cp I → Option (Cp I)} (P : Account → Prop)
    (cond : Event I A → Cp I → Prop)
    (henter : ∀ s s', Paused buffer_bytes k s → s.call = none → enter s = some s' → Entered buffer_bytes k s s')
    (hturn : ∀ a s s', Shape buffer_bytes k s ∧ P s.account → cond (.turn a) s → turn a s = some s' →
      Shape buffer_bytes k s' ∧ P s'.account)
    (e : Event I A) (s s' : Cp I) (h : Shape buffer_bytes k s ∧ P s.account) (hcond : cond e s)
    (hstep : step enter turn e s = some s') : Shape buffer_bytes k s' ∧ P s'.account := by
  obtain ⟨hshape, hp⟩ := id h
  cases e with
  | put info =>
    cases hstep
    exact ⟨hshape.congr rfl rfl rfl, hp⟩
  | free i =>
    rw [step] at hstep
    split at hstep
    · rename_i hi
      cases hstep
      obtain ⟨hshape', haccount⟩ := hshape.free hi
      rw [haccount]
      exact ⟨hshape', hp⟩
    · cases hstep
  | codecReset =>
    cases hstep
    exact ⟨hshape.congr rfl rfl rfl, hp⟩
  | enter =>
    rw [step] at hstep
    split at hstep
    · have hcall := Option.isNone_iff_eq_none.1 ‹_›
      have hentered := henter s s' (hshape.paused hcall) hcall hstep
      rw [hentered.account hcall]
      exact ⟨hentered.shape, hp⟩
    · cases hstep
  | turn a => exact hturn a s s' h hcond hstep

/-- An account of nothing. -/
theorem Start.account {delay : Nat} (h : Start delay s) :
    Shape buffer_bytes k s ∧ s.account = ⟨false, 0, s.out.pcm, [], [], false⟩ := by
  obtain ⟨-, -, -, hcall, hconsumed, hcompleted, hlast, -⟩ := id h
  have hout : s.out.state ≠ .working := h.not_working _
  refine ⟨.of_paused h.paused hcall, ?_⟩
  rw [account_rest hcall, Cp.recorded, if_neg hout, hconsumed, hcompleted, hlast]

end Filling

/-- What a decoded frame adds to the account. -/
theorem noted_account (s : Cp I) (info : I) (frame_samples : Nat) (pcm : List UInt8) (c : Call) :
    (noteFrame info frame_samples (writePcm pcm c s)).accountIn { c with dataLen := c.dataLen + pcm.length } =
      { s.accountIn c with
        filled := (s.accountIn c).filled + pcm.length
        pcm := memcpy s.out.pcm (s.accountIn c).filled (bufferOf pcm) pcm.length } := by
  have hout := noted_out s info frame_samples pcm c
  rw [Cp.accountIn, hout]
  simp only [Cp.accountIn, Nat.add_assoc]
  rfl

/-! ### Turns of the AAC decoder -/

section Aac

variable {buffer_bytes : Nat} {s s' : Cp AacInInfo} {c : Call} {info : AacInInfo} {rest : List AacInInfo}

/-- The turn of a frame that is decoded. -/
theorem aacTurn_decoded (pcm : List UInt8) (hcall : s.call = some c) (hin : s.in_frames = info :: rest)
    (hrefill : c.need_refill = false) :
    aacTurn buffer_bytes (.decoded pcm) s =
      if pcm.length / 4 = aacOutputFrameSamples then
        goOn buffer_bytes false { c with dataLen := c.dataLen + pcm.length }
          { consumeInFrame pcm (noteFrame info aacOutputFrameSamples (writePcm pcm c s)) with lastFailed := false }
      else none := by
  cases s
  cases hcall
  cases hin
  simp only [aacTurn, endDecode, hrefill, Bool.false_eq_true, if_false]
  rfl

/-- The turn of a frame that is decoded for the one before it, and is not consumed. -/
theorem aacTurn_refill (pcm : List UInt8) (hcall : s.call = some c) (hin : s.in_frames = info :: rest)
    (hrefill : c.need_refill = true) :
    aacTurn buffer_bytes (.decoded pcm) s =
      if pcm.length / 4 = aacOutputFrameSamples then
        goOn buffer_bytes false { c with dataLen := c.dataLen + pcm.length }
          { noteFrame { info with sequenceNumber := 0xFFFF } aacOutputFrameSamples (writePcm pcm c s) with
            in_frames := { info with sequenceNumber := 0xFFFF } :: rest, lastFailed := false }
      else none := by
  cases s
  cases hcall
  cases hin
  simp only [aacTurn, endDecode, hrefill, if_true]
  rfl

/-- The turn of a frame that the decoder refuses. -/
theorem aacTurn_failed (hcall : s.call = some c) (hin : s.in_frames = info :: rest) (hrefill : c.need_refill = false) :
    aacTurn buffer_bytes .decodeFailed s =
      some { consumeInFrame [] s with call := some { c with need_refill := true }, lastFailed := true } := by
  cases s
  cases hcall
  cases hin
  simp only [aacTurn, hrefill, Bool.false_eq_true, if_false]
  rfl

/-- A turn without an input frame. -/
theorem aacTurn_underflow {a : AacAnswer} (hcall : s.call = some c) (hin : s.in_frames = []) :
    aacTurn buffer_bytes a s = some { s with call := none, ret := 4 } := by
  cases s
  cases hcall
  cases hin
  rfl

end Aac

end A2dp.CpDecode
