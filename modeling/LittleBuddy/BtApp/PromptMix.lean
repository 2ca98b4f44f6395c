import LittleBuddy.Lib.Runs
import Mathlib
/-!
# Mixing a prompt into the playback

`audio_prompt_processing_handler` of `services/bt_app/audio_prompt_sbc.cpp`: it decodes
the prompt, resamples it into a queue and merges what it takes from there into the
buffer that is played, with a crossfade at the beginning and one at the end. The end
is recognised by the length that is left of the second one. Here are the lengths and
the positions, not the samples.
-/
open Runs

namespace BtApp.PromptMix

/-- `AUDIO_PROMPT_SBC_PCM_DATA_SIZE_PER_FRAME`. -/
abbrev pcmDataSizePerFrame : Nat := 256

/-- `AUDIO_PROMPT_PCM_FILL_UNIT_SIZE`. -/
abbrev pcmFillUnitSize : Nat := 512

/-- `AUDIO_PROMPT_SBC_ENCODED_DATA_SIZE_PER_FRAME`. -/
abbrev encodedDataSizePerFrame : Nat := 160

/-- `AUDIO_PROMPT_SBC_SAMPLE_RATE_VALUE`. -/
abbrev sampleRateValue : Nat := 16000

/-- `AUDIO_PROMPT_PCM_BUFFER_SIZE`. -/
abbrev pcmBufferSize : Nat := 2048

/-- `DEFAULT_OVERLAP_LENGTH`. -/
abbrev defaultOverlapLength : Nat := 128

/-- `targetChannelCnt`; any other is asserted not to be. -/
inductive Channels where
  | mono
  | stereo
  deriving DecidableEq

def Channels.count : Channels → Nat
  | mono => 1
  | stereo => 2

theorem Channels.count_pos (channels : Channels) : 0 < channels.count := by
  cases channels <;> decide

/-- `AUDIO_CHANNEL_SELECT_E`. -/
inductive AudioChannelSelect where
  | stereo
  | lrmerge
  | lchnl
  | rchnl
  deriving DecidableEq

/-- What a prompt is played with. -/
structure Config where
  channels : Channels
  /-- Samples of 24 bits. -/
  wide : Bool
  targetSampleRate : Nat
  /-- `(uint32_t)(n / resampleRatio)`, in floating point. -/
  scaled : Nat → Nat
  scaled_zero : scaled 0 = 0
  promptPram : UInt16
  audio_chnl_sel : AudioChannelSelect

def Config.targetBytesCntPerSample (cfg : Config) : Nat := if cfg.wide then 4 else 2

def Config.targetPcmChunkSize (cfg : Config) : Nat := cfg.scaled pcmDataSizePerFrame

/-! ## `app_media_player.h` and `app_ibrt_voice_report.cpp` -/

def promptChnlselFromIdValue (promptIdVal : UInt16) : UInt16 := promptIdVal &&& 0x6000

def isPromptChnlselAll (promptId : UInt16) : Bool := promptId &&& 0x6000 = 0x6000

def isPromptChnlselLchnl (promptId : UInt16) : Bool := promptId &&& 0x6000 = 0x2000

def isPromptChnlselRchnl (promptId : UInt16) : Bool := promptId &&& 0x6000 = 0x4000

/-- `app_ibrt_voice_report_is_me`. -/
def appIbrtVoiceReportIsMe (audio_chnl_sel : AudioChannelSelect) (voice_chnlsel : UInt16) : Bool :=
  match audio_chnl_sel with
  | .lchnl => !isPromptChnlselRchnl voice_chnlsel
  | .rchnl => !isPromptChnlselLchnl voice_chnlsel
  | _ => true

/-- The prompt is to be heard on this earbud. -/
def Config.isMe (cfg : Config) : Bool :=
  isPromptChnlselAll (promptChnlselFromIdValue cfg.promptPram) ||
    appIbrtVoiceReportIsMe cfg.audio_chnl_sel (promptChnlselFromIdValue cfg.promptPram)

/-! ## The environment -/

/-- A crossfade: its arguments, the lengths that are left, the samples in the buffer, and behind which
of them it ends. -/
structure Crossfade where
  merge_in_end : Nat
  merge_out_start : Nat
  src_len : Nat
  mergeInOverlapLength : Nat
  mergeOutOverlapLength : Nat
  room : Nat
  last : Nat

/-- `audio_prompt_env`; the queue is there with its length. -/
structure Env where
  leftEncodedDataLen : Nat
  pcmDataQueue : Nat
  isAudioPromptDecodingDone : Bool
  isMixPromptOn : Bool
  mergeInOverlapLength : Nat
  mergeOutOverlapLength : Nat
  /-- The crossfades so far. -/
  crossfades : List Crossfade

/-- The `uint16_t` that is left of `a`. -/
def sub16 (a b : Nat) : Nat := (a + 2 ^ 32 - b % 2 ^ 32) % 2 ^ 16

/-- The `uint32_t` difference. -/
def sub32 (a b : Nat) : Nat := (a + 2 ^ 32 - b % 2 ^ 32) % 2 ^ 32

/-- `targetOverlapLength` of `audio_prompt_start_playing`. -/
def Config.targetOverlapLength (cfg : Config) : Nat := cfg.scaled defaultOverlapLength % 2 ^ 16 / 2 * 2

/-- `audio_prompt_start_playing`; the queue may have something of the prompt before. -/
def audioPromptStartPlaying (cfg : Config) (promptDataLen queue : Nat) : Env where
  leftEncodedDataLen := promptDataLen
  pcmDataQueue := queue
  isAudioPromptDecodingDone := false
  isMixPromptOn := true
  mergeInOverlapLength := cfg.targetOverlapLength * cfg.channels.count % 2 ^ 16
  mergeOutOverlapLength := cfg.targetOverlapLength * cfg.channels.count % 2 ^ 16
  crossfades := []

/-- `audio_prompt_stop_playing`. -/
def audioPromptStopPlaying (env : Env) : Env :=
  if env.isMixPromptOn then { env with leftEncodedDataLen := 0, isMixPromptOn := false } else env

/-! ## Decoding -/

/-- What `btif_sbc_decode_frames` answers; `goesOn` for `BT_STS_CONTINUE` and `BT_STS_SUCCESS`. -/
structure Reply where
  byte_decode : Nat
  dataLen : Nat
  goesOn : Bool

/-- It takes and gives at most what it is offered, and gives nothing when nothing is offered. -/
def Reply.Fits (reply : Reply) (bytes room : Nat) : Prop :=
  reply.byte_decode ≤ bytes ∧ reply.dataLen ≤ room ∧ (bytes = 0 → reply.dataLen = 0)

instance (reply : Reply) (bytes room : Nat) : Decidable (reply.Fits bytes room) :=
  inferInstanceAs (Decidable (_ ∧ _ ∧ _))

/-- `audio_prompt_sbc_decode`, with the answers of its calls: what is left, and how much it returns. -/
def audioPromptSbcDecode (left pcm_offset : Nat) : List Reply → Option (Nat × Nat)
  | [] => none
  | reply :: replies =>
    if reply.Fits (min left encodedDataSizePerFrame) (pcmDataSizePerFrame - pcm_offset) then
      if left - reply.byte_decode = 0 ∨ pcmDataSizePerFrame = pcm_offset + reply.dataLen ∨ reply.goesOn = false then
        if replies.isEmpty then some (left - reply.byte_decode, pcm_offset + reply.dataLen) else none
      else audioPromptSbcDecode (left - reply.byte_decode) (pcm_offset + reply.dataLen) replies
    else none

/-- The length of a decoded frame behind the resampling. -/
def targetPcmSize (cfg : Config) (returnedPcmDataLen : Nat) : Nat :=
  if cfg.targetSampleRate ≠ sampleRateValue then
    (if pcmDataSizePerFrame = returnedPcmDataLen then cfg.targetPcmChunkSize else cfg.scaled returnedPcmDataLen) / 4 * 4
  else returnedPcmDataLen

/-- `EnCQueue`, which takes nothing if there is no room for all. -/
def enCQueue (queue len : Nat) : Nat := if pcmBufferSize - queue < len then queue else queue + len

/-- The loop that fills the queue. -/
def fillQueue (cfg : Config) (pcmDataToGetFromPrompt : Nat) (env : Env) : List (List Reply) → Option Env
  | [] => if env.pcmDataQueue < pcmDataToGetFromPrompt ∧ env.isAudioPromptDecodingDone = false then none else some env
  | replies :: decodes =>
    if env.pcmDataQueue < pcmDataToGetFromPrompt ∧ env.isAudioPromptDecodingDone = false then
      (audioPromptSbcDecode env.leftEncodedDataLen 0 replies).bind fun (left, returnedPcmDataLen) =>
        fillQueue cfg pcmDataToGetFromPrompt
          { env with
            leftEncodedDataLen := left
            isAudioPromptDecodingDone := returnedPcmDataLen < pcmDataSizePerFrame
            pcmDataQueue := enCQueue env.pcmDataQueue (targetPcmSize cfg returnedPcmDataLen) } decodes
    else none

/-! ## Merging -/

/-- A loop `for (; i < stop; i += channels)`, which takes that many samples each time: where it leaves `i`. -/
def forEnd (channels : Channels) (i stop : Nat) : Nat :=
  if i < stop then forEnd channels (i + channels.count) stop else i
termination_by stop - i
decreasing_by
  have := channels.count_pos
  omega

/-- The three loops of `audio_prompt_crossfade`: the sample behind the last one that they read and write. -/
def crossfadeEnd (channels : Channels) (merge_in_end merge_out_start src_len : Nat) : Nat :=
  forEnd channels (forEnd .mono (forEnd channels 0 merge_in_end) merge_out_start) src_len

/-- `audio_prompt_crossfade`, for so many samples in the buffer. -/
def audioPromptCrossfade (channels : Channels) (room merge_in_end merge_out_start src_len : Nat) (env : Env) : Env :=
  { env with
    mergeInOverlapLength := sub16 env.mergeInOverlapLength merge_in_end
    mergeOutOverlapLength := sub16 env.mergeOutOverlapLength (sub32 src_len merge_out_start)
    crossfades := env.crossfades ++ [{
      merge_in_end, merge_out_start, src_len, room
      mergeInOverlapLength := env.mergeInOverlapLength
      mergeOutOverlapLength := env.mergeOutOverlapLength
      last := crossfadeEnd channels merge_in_end merge_out_start src_len }] }

/-- `merge_in_end`. -/
def mergeInEnd (env : Env) (src_len : Nat) : Nat :=
  if 0 < env.mergeInOverlapLength then min env.mergeInOverlapLength src_len else 0

/-- `merge_out_start`. -/
def mergeOutStart (channels : Channels) (env : Env) (src_len : Nat) : Nat :=
  if env.leftEncodedDataLen = 0 ∧ env.pcmDataQueue < env.mergeOutOverlapLength / channels.count * 2 then
    sub32 src_len (sub32 env.mergeOutOverlapLength (env.pcmDataQueue / 2 * channels.count))
  else src_len

/-- The data that was taken from the queue is merged. -/
def merge (cfg : Config) (room pcmDataLenToMerge : Nat) (env : Env) : Env :=
  let src_len := pcmDataLenToMerge * cfg.channels.count / 2
  audioPromptCrossfade cfg.channels room (mergeInEnd env src_len) (mergeOutStart cfg.channels env src_len) src_len env

/-- The prompt is stopped where nothing is left of its end. -/
def stopAtEnd (env : Env) : Env := if env.mergeOutOverlapLength = 0 then audioPromptStopPlaying env else env

/-- `pcmDataToGetFromPrompt`. -/
def Config.toGet (cfg : Config) (acquiredPcmDataLen : Nat) : Nat :=
  acquiredPcmDataLen / (cfg.channels.count * cfg.targetBytesCntPerSample / 2)

/-- `audio_prompt_processing_handler_func`, with the answers of the decoder. -/
def audioPromptProcessingHandlerFunc (cfg : Config) (acquiredPcmDataLen : Nat) (decodes : List (List Reply)) (env : Env) :
    Option Env :=
  (fillQueue cfg (cfg.toGet acquiredPcmDataLen) env decodes).map fun env =>
    let pcmDataLenToMerge :=
      if env.pcmDataQueue < cfg.toGet acquiredPcmDataLen then env.pcmDataQueue else cfg.toGet acquiredPcmDataLen
    if pcmDataLenToMerge = 0 then stopAtEnd env
    else
      let env := { env with pcmDataQueue := env.pcmDataQueue - pcmDataLenToMerge }
      stopAtEnd
        (if cfg.isMe then merge cfg (acquiredPcmDataLen / cfg.targetBytesCntPerSample) pcmDataLenToMerge env else env)

/-- `lenToGet`, in each turn of the loop of `audio_prompt_processing_handler`. -/
def lensToGet (acquiredPcmDataLen : Nat) : List Nat :=
  if _h : acquiredPcmDataLen = 0 then []
  else if pcmFillUnitSize < acquiredPcmDataLen then pcmFillUnitSize :: lensToGet (acquiredPcmDataLen - pcmFillUnitSize)
  else [acquiredPcmDataLen]
termination_by acquiredPcmDataLen
decreasing_by exact Nat.sub_lt (Nat.pos_of_ne_zero ‹_›) (by decide)

/-- The calls for the units of a buffer. -/
def processUnits (cfg : Config) : List Nat → List (List (List Reply)) → Env → Option Env
  | [], [], env => some env
  | len :: lens, decodes :: more, env =>
    (audioPromptProcessingHandlerFunc cfg len decodes env).bind (processUnits cfg lens more)
  | _, _, _ => none

/-- A call of `audio_prompt_processing_handler`, once the mixing is enabled: the length of the buffer, and
what the decoder answers. -/
structure Call where
  acquiredPcmDataLen : Nat
  decodes : List (List (List Reply))

/-- `audio_prompt_processing_handler`. -/
def audioPromptProcessingHandler (cfg : Config) (call : Call) (env : Env) : Option Env :=
  processUnits cfg (lensToGet call.acquiredPcmDataLen) call.decodes env

/-! ## When the prompt ends well -/

/-- How much of the encoded data the decoder takes. -/
def consumed (decodes : List (List Reply)) : Nat := (decodes.map fun replies => (replies.map Reply.byte_decode).sum).sum

/-- The queue with what the decoder gives. -/
def filled (cfg : Config) (queue : Nat) (decodes : List (List Reply)) : Nat :=
  (decodes.map fun replies => targetPcmSize cfg (replies.map Reply.dataLen).sum).foldl enCQueue queue

section Filling

variable {cfg : Config} {env env' : Env} {decodes : List (List Reply)} {replies : List Reply} {left left' offset len wanted : Nat}

theorem decode_spec (h : audioPromptSbcDecode left offset replies = some (left', len)) :
    left' + (replies.map Reply.byte_decode).sum = left ∧ len = offset + (replies.map Reply.dataLen).sum ∧
      (left = 0 → len = offset) := by
  induction replies generalizing left offset with
  | nil => cases h
  | cons reply replies ih =>
    rw [audioPromptSbcDecode] at h
    split at h
    · rename_i hfits
      obtain ⟨hbytes, hroom, hnothing⟩ := hfits
      have hbytes' : reply.byte_decode ≤ left := Nat.le_trans hbytes (Nat.min_le_left _ _)
      have hzero : left = 0 → reply.dataLen = 0 := fun hleft => hnothing (by rw [hleft, Nat.zero_min])
      rw [List.map_cons, List.map_cons, List.sum_cons, List.sum_cons]
      split at h
      · split at h
        · rename_i hempty
          obtain rfl := List.isEmpty_iff.mp hempty
          obtain ⟨rfl, rfl⟩ := Prod.mk.inj (Option.some_inj.mp h)
          simp only [List.map_nil, List.sum_nil]
          omega
        · cases h
      · obtain ⟨hleft, hlen, hnone⟩ := ih h
        omega
    · cases h

theorem targetPcmSize_zero (cfg : Config) : targetPcmSize cfg 0 = 0 := by
  rw [targetPcmSize]
  split
  · rw [if_neg (by decide), cfg.scaled_zero]
  · rfl

theorem enCQueue_zero (queue : Nat) : enCQueue queue 0 = queue := by
  rw [enCQueue, if_neg (Nat.not_lt_zero _), Nat.add_zero]

/-- What the loop that fills the queue does to the environment. -/
theorem fillQueue_spec (h : fillQueue cfg wanted env decodes = some env') :
    ∃ done, consumed decodes ≤ env.leftEncodedDataLen ∧
      env' = { env with
        leftEncodedDataLen := env.leftEncodedDataLen - consumed decodes
        isAudioPromptDecodingDone := done
        pcmDataQueue := filled cfg env.pcmDataQueue decodes } ∧
      (env.leftEncodedDataLen = 0 → filled cfg env.pcmDataQueue decodes = env.pcmDataQueue) := by
  induction decodes generalizing env with
  | nil =>
    rw [fillQueue] at h
    split at h
    · cases h
    · obtain rfl := Option.some_inj.mp h
      exact ⟨_, Nat.zero_le _, rfl, fun _ => rfl⟩
  | cons replies decodes ih =>
    rw [fillQueue] at h
    split at h
    · obtain ⟨⟨left, len⟩, hdecode, hfill⟩ := Option.bind_eq_some_iff.mp h
      obtain ⟨hleft, hlen, hnothing⟩ := decode_spec hdecode
      obtain ⟨done, hconsumed, henv, hqueue⟩ := ih hfill
      rw [Nat.zero_add] at hlen
      have hall : consumed (replies :: decodes) = (replies.map Reply.byte_decode).sum + consumed decodes := by
        rw [consumed, List.map_cons, List.sum_cons]
        rfl
      have hfilled : filled cfg env.pcmDataQueue (replies :: decodes) =
          filled cfg (enCQueue env.pcmDataQueue (targetPcmSize cfg len)) decodes := by
        rw [hlen]
        rfl
      simp only at hconsumed henv hqueue
      refine ⟨done, by omega, ?_, fun hzero => ?_⟩
      · rw [henv, hfilled]
        have hsub : left - consumed decodes = env.leftEncodedDataLen - consumed (replies :: decodes) := by omega
        rw [hsub]
      · rw [hfilled]
        have hlen' : len = 0 := hnothing hzero
        rw [hlen', targetPcmSize_zero, enCQueue_zero] at hqueue ⊢
        exact hqueue (by omega)
    · cases h

end Filling

/-- Its positions are in order, its samples in the buffer, and no length below zero behind it. -/
structure Crossfade.InBounds (c : Crossfade) : Prop where
  in_le_out : c.merge_in_end ≤ c.merge_out_start
  out_le_len : c.merge_out_start ≤ c.src_len
  last_le : c.last ≤ c.room
  in_left : c.merge_in_end ≤ c.mergeInOverlapLength
  out_left : c.src_len - c.merge_out_start ≤ c.mergeOutOverlapLength

/-- The call begins the crossfade at the end: the encoded data is used up, and what the queue has behind
the call is less than what is left of the crossfade. -/
def Ends (cfg : Config) (len : Nat) (decodes : List (List Reply)) (env : Env) : Prop :=
  env.leftEncodedDataLen ≤ consumed decodes ∧
    filled cfg env.pcmDataQueue decodes - min (cfg.toGet len) (filled cfg env.pcmDataQueue decodes) <
      env.mergeOutOverlapLength / cfg.channels.count * 2

/-- What is left of both crossfades is not longer than the rest of the prompt. -/
def OverlapsFit (cfg : Config) (len : Nat) (decodes : List (List Reply)) (env : Env) : Prop :=
  env.mergeInOverlapLength + env.mergeOutOverlapLength ≤
    min (cfg.toGet len) (filled cfg env.pcmDataQueue decodes) * cfg.channels.count / 2 +
      (filled cfg env.pcmDataQueue decodes - min (cfg.toGet len) (filled cfg env.pcmDataQueue decodes)) / 2 * cfg.channels.count

/-- No pair of samples goes over the end of a buffer with an odd number of samples: there is no such
buffer, or it is not filled, or the pairs of the crossfades end in front of its last sample. -/
def PairsFit (cfg : Config) (len : Nat) (decodes : List (List Reply)) (env : Env) : Prop :=
  cfg.channels = .stereo → cfg.toGet len % 2 = 1 → cfg.toGet len ≤ filled cfg env.pcmDataQueue decodes →
    env.mergeInOverlapLength < cfg.toGet len ∧
      ¬(env.mergeInOverlapLength % 2 = 1 ∧ Ends cfg len decodes env ∧
        env.mergeInOverlapLength + env.mergeOutOverlapLength =
          cfg.toGet len + (filled cfg env.pcmDataQueue decodes - cfg.toGet len) / 2 * 2)

/-- The prompt is heard on this earbud, and the crossfades fit; or it has no crossfade at the end. -/
def Fits (cfg : Config) (len : Nat) (decodes : List (List Reply)) (env : Env) : Prop :=
  if cfg.isMe then
    (0 < cfg.toGet len → Ends cfg len decodes env → OverlapsFit cfg len decodes env) ∧ PairsFit cfg len decodes env
  else env.mergeOutOverlapLength = 0

/-- Every turn of the loop for the units of a buffer fits, in the environment in front of it. -/
def FitsUnits (cfg : Config) : List Nat → List (List (List Reply)) → Env → Prop
  | len :: lens, decodes :: more, env =>
    Fits cfg len decodes env ∧ ∀ env' ∈ audioPromptProcessingHandlerFunc cfg len decodes env, FitsUnits cfg lens more env'
  | _, _, _ => True

/-- Every turn of a call fits. -/
def FitsCall (cfg : Config) (call : Call) (env : Env) : Prop :=
  FitsUnits cfg (lensToGet call.acquiredPcmDataLen) call.decodes env

instance (cfg : Config) (len : Nat) (decodes : List (List Reply)) (env : Env) : Decidable (Ends cfg len decodes env) :=
  inferInstanceAs (Decidable (_ ∧ _))

instance (cfg : Config) (len : Nat) (decodes : List (List Reply)) (env : Env) : Decidable (OverlapsFit cfg len decodes env) :=
  Nat.decLe _ _

instance (cfg : Config) (len : Nat) (decodes : List (List Reply)) (env : Env) : Decidable (PairsFit cfg len decodes env) :=
  inferInstanceAs (Decidable (_ → _ → _ → _ ∧ ¬(_ ∧ _ ∧ _)))

instance (cfg : Config) (len : Nat) (decodes : List (List Reply)) (env : Env) : Decidable (Fits cfg len decodes env) :=
  inferInstanceAs (Decidable (ite (cfg.isMe = true) (_ ∧ _) _))

instance FitsUnits.decide (cfg : Config) :
    (lens : List Nat) → (decodes : List (List (List Reply))) → (env : Env) → Decidable (FitsUnits cfg lens decodes env)
  | len :: lens, decodes :: more, env =>
    have := FitsUnits.decide cfg lens more
    inferInstanceAs (Decidable (_ ∧ ∀ env' ∈ audioPromptProcessingHandlerFunc cfg len decodes env, FitsUnits cfg lens more env'))
  | [], _, _ => isTrue trivial
  | _ :: _, [], _ => isTrue trivial

instance (cfg : Config) (call : Call) (env : Env) : Decidable (FitsCall cfg call env) :=
  FitsUnits.decide cfg _ _ _

/-! ## A crossfade -/

section Crossfades

variable {channels : Channels} {i stop a b : Nat} {env : Env} {src_len : Nat}

theorem sub32_eq (h : b ≤ a) (ha : a < 2 ^ 32) : sub32 a b = a - b := by
  rw [sub32]
  omega

theorem sub16_eq (h : b ≤ a) (ha : a < 2 ^ 16) : sub16 a b = a - b := by
  rw [sub16]
  omega

theorem forEnd_of_le (h : stop ≤ i) : forEnd channels i stop = i := by
  rw [forEnd, if_neg (Nat.not_lt.mpr h)]

/-- A loop ends at the first of its positions from `stop` on. -/
theorem forEnd_spec (channels : Channels) (h : i ≤ stop) :
    stop ≤ forEnd channels i stop ∧ forEnd channels i stop < stop + channels.count ∧
      forEnd channels i stop % channels.count = i % channels.count := by
  have hpos := channels.count_pos
  induction i using forEnd.induct channels stop with
  | case1 i hlt ih =>
    rw [forEnd, if_pos hlt]
    by_cases hnext : i + channels.count ≤ stop
    · obtain ⟨hle, hend, hmod⟩ := ih hnext
      rw [Nat.add_mod_right] at hmod
      exact ⟨hle, hend, hmod⟩
    · rw [forEnd_of_le (by omega), Nat.add_mod_right]
      omega
  | case2 i hge =>
    rw [forEnd_of_le (by omega)]
    omega

theorem forEnd_mono (i stop : Nat) : forEnd .mono i stop = max i stop := by
  rcases Nat.le_total i stop with h | h
  · obtain ⟨hle, hlt, _⟩ := forEnd_spec .mono h
    rw [Nat.max_eq_right h]
    exact Nat.le_antisymm (Nat.le_of_lt_succ hlt) hle
  · rw [forEnd_of_le h, Nat.max_eq_left h]

theorem crossfadeEnd_mono {merge_in_end merge_out_start : Nat} (hin : merge_in_end ≤ merge_out_start)
    (hout : merge_out_start ≤ src_len) : crossfadeEnd .mono merge_in_end merge_out_start src_len = src_len := by
  rw [crossfadeEnd, forEnd_mono, forEnd_mono, forEnd_mono]
  omega

/-- With pairs of samples, a crossfade goes over the end by a sample at most, and only from an odd
position where both crossfades meet. -/
theorem crossfadeEnd_stereo {merge_in_end merge_out_start room : Nat} (hin : merge_in_end ≤ merge_out_start)
    (hout : merge_out_start ≤ src_len) (hparity : merge_out_start % 2 = src_len % 2)
    (hroom : src_len < room ∨ src_len ≤ room ∧ ¬(merge_in_end % 2 = 1 ∧ merge_in_end = merge_out_start)) :
    crossfadeEnd .stereo merge_in_end merge_out_start src_len ≤ room := by
  rw [crossfadeEnd, forEnd_mono]
  obtain ⟨hle, hlt, hmod⟩ := forEnd_spec .stereo (Nat.zero_le merge_in_end)
  generalize forEnd .stereo 0 merge_in_end = i at hle hlt hmod
  simp only [Channels.count] at hlt hmod
  rcases Nat.lt_or_ge src_len (max i merge_out_start) with hover | hunder
  · rw [forEnd_of_le (Nat.le_of_lt hover)]
    omega
  · obtain ⟨hle', hlt', hmod'⟩ := forEnd_spec .stereo hunder
    simp only [Channels.count] at hlt' hmod'
    omega

/-- Where the crossfade at the end begins. -/
theorem mergeOutStart_of_ends (hends : env.leftEncodedDataLen = 0 ∧ env.pcmDataQueue < env.mergeOutOverlapLength / channels.count * 2)
    (hwhole : env.mergeOutOverlapLength % channels.count = 0) (hlt : env.mergeOutOverlapLength < 2 ^ 16) (hsrc : src_len < 2 ^ 16)
    (hfit : env.mergeOutOverlapLength ≤ src_len + env.pcmDataQueue / 2 * channels.count) :
    mergeOutStart channels env src_len = src_len - (env.mergeOutOverlapLength - env.pcmDataQueue / 2 * channels.count) ∧
      env.pcmDataQueue / 2 * channels.count < env.mergeOutOverlapLength := by
  have hqueue : env.pcmDataQueue / 2 * channels.count < env.mergeOutOverlapLength := by
    obtain ⟨_, hqueue⟩ := hends
    cases channels <;> simp only [Channels.count] at hqueue hwhole ⊢ <;> omega
  rw [mergeOutStart, if_pos hends, sub32_eq (Nat.le_of_lt hqueue) (by omega), sub32_eq (by omega) (by omega)]
  exact ⟨rfl, hqueue⟩

end Crossfades

section Merging

variable {cfg : Config} {env : Env} {room len : Nat}

theorem mergeInEnd_eq (env : Env) (src_len : Nat) : mergeInEnd env src_len = min env.mergeInOverlapLength src_len := by
  rw [mergeInEnd]
  split
  · rfl
  · omega

/-- A crossfade with its positions in order stays in the buffer. -/
theorem crossfadeEnd_le {merge_in_end merge_out_start : Nat} (hroom : len * cfg.channels.count / 2 ≤ room)
    (hin : merge_in_end ≤ merge_out_start) (hout : merge_out_start ≤ len * cfg.channels.count / 2)
    (hpairs : cfg.channels = .stereo → merge_out_start % 2 = len % 2 ∧
      (len = room → ¬(merge_in_end % 2 = 1 ∧ merge_in_end = merge_out_start))) :
    crossfadeEnd cfg.channels merge_in_end merge_out_start (len * cfg.channels.count / 2) ≤ room := by
  cases hchannels : cfg.channels with
  | mono =>
    rw [hchannels] at hroom hout
    rw [crossfadeEnd_mono hin hout]
    exact hroom
  | stereo =>
    obtain ⟨hparity, hmeet⟩ := hpairs hchannels
    rw [hchannels] at hroom hout
    simp only [Channels.count, Nat.mul_div_cancel len (show 0 < 2 by decide)] at hroom hout ⊢
    refine crossfadeEnd_stereo hin hout hparity ?_
    rcases Nat.lt_or_eq_of_le hroom with hlt | heq
    · exact .inl hlt
    · exact .inr ⟨hroom, hmeet heq⟩

/-- A crossfade that fits, and what it leaves. -/
theorem merge_spec (cfg : Config) (env : Env) (room : Nat) (hlen : len < 2 ^ 14) (hin : env.mergeInOverlapLength < 2 ^ 16) (hout : env.mergeOutOverlapLength < 2 ^ 16)
    (hwhole : env.mergeOutOverlapLength % cfg.channels.count = 0)
    (hroom : len * cfg.channels.count / 2 ≤ room)
    (hends : env.leftEncodedDataLen = 0 ∧ env.pcmDataQueue < env.mergeOutOverlapLength / cfg.channels.count * 2 →
      env.mergeInOverlapLength + env.mergeOutOverlapLength ≤
        len * cfg.channels.count / 2 + env.pcmDataQueue / 2 * cfg.channels.count)
    (hpairs : cfg.channels = .stereo → len % 2 = 1 → len = room → env.mergeInOverlapLength < len ∧
      ¬(env.mergeInOverlapLength % 2 = 1 ∧
        (env.leftEncodedDataLen = 0 ∧ env.pcmDataQueue < env.mergeOutOverlapLength / cfg.channels.count * 2) ∧
        env.mergeInOverlapLength + env.mergeOutOverlapLength = len + env.pcmDataQueue / 2 * 2)) :
    ∃ mergeIn mergeOut c, merge cfg room len env = { env with
        mergeInOverlapLength := mergeIn, mergeOutOverlapLength := mergeOut, crossfades := env.crossfades ++ [c] } ∧
      c.InBounds ∧ mergeIn ≤ env.mergeInOverlapLength ∧ mergeOut ≤ env.mergeOutOverlapLength ∧ mergeOut % cfg.channels.count = 0 := by
  have hsrc : len * cfg.channels.count / 2 < 2 ^ 16 := by cases cfg.channels <;> simp only [Channels.count] <;> omega
  have hsub : ∀ n ≤ len * cfg.channels.count / 2, sub32 (len * cfg.channels.count / 2) n = len * cfg.channels.count / 2 - n :=
    fun n hn => sub32_eq hn (by omega)
  rw [merge, audioPromptCrossfade, mergeInEnd_eq]
  by_cases htrigger : env.leftEncodedDataLen = 0 ∧ env.pcmDataQueue < env.mergeOutOverlapLength / cfg.channels.count * 2
  · have hfit := hends htrigger
    obtain ⟨hstart, hqueue⟩ := mergeOutStart_of_ends htrigger hwhole hout hsrc (by omega)
    rw [hstart, hsub _ (Nat.sub_le _ _), Nat.min_eq_left (by omega), sub16_eq (Nat.le_refl _) hin, sub16_eq (by omega) hout]
    refine ⟨_, _, _, rfl, ⟨?_, Nat.sub_le _ _, ?_, Nat.le_refl _, ?_⟩, Nat.sub_le _ _, Nat.sub_le _ _, ?_⟩
    · simp only
      omega
    · refine crossfadeEnd_le hroom (by omega) (Nat.sub_le _ _) fun hstereo => ?_
      have hpairs := hpairs hstereo
      simp only [hstereo, Channels.count] at hwhole hqueue hfit hpairs htrigger ⊢
      refine ⟨by omega, fun hlen ⟨hodd, hmeet⟩ => ?_⟩
      -- they meet at an odd position: the buffer has an odd number of samples
      obtain ⟨_, hno⟩ := hpairs (by omega) hlen
      exact hno ⟨hodd, htrigger, by omega⟩
    · simp only
      omega
    · cases hchannels : cfg.channels <;> simp only [hchannels, Channels.count] at hqueue hfit ⊢ <;> omega
  · rw [mergeOutStart, if_neg htrigger, hsub _ (Nat.le_refl _), Nat.sub_self, sub16_eq (Nat.min_le_left _ _) hin,
      sub16_eq (Nat.zero_le _) hout, Nat.sub_zero]
    refine ⟨_, _, _, rfl, ⟨Nat.min_le_right _ _, Nat.le_refl _, ?_, Nat.min_le_left _ _, ?_⟩, Nat.sub_le _ _, Nat.le_refl _, hwhole⟩
    · refine crossfadeEnd_le hroom (Nat.min_le_right _ _) (Nat.le_refl _) fun hstereo => ?_
      have hsame : len * cfg.channels.count / 2 = len := by
        rw [hstereo]
        exact Nat.mul_div_cancel len (by decide)
      rw [hsame]
      refine ⟨rfl, fun hlen ⟨hodd, hmeet⟩ => ?_⟩
      obtain ⟨hless, _⟩ := hpairs hstereo (by omega) hlen
      omega
    · rw [Nat.sub_self]
      exact Nat.zero_le _

end Merging

/-! ## A call -/

/-- What holds of the environment all the time. -/
structure Sound (cfg : Config) (env : Env) : Prop where
  crossfades : ∀ c ∈ env.crossfades, c.InBounds
  in_lt : env.mergeInOverlapLength < 2 ^ 16
  out_lt : env.mergeOutOverlapLength < 2 ^ 16
  whole : env.mergeOutOverlapLength % cfg.channels.count = 0

section Calls

variable {cfg : Config} {env env' : Env} {decodes : List (List Reply)} {len : Nat}

theorem Sound.stopAtEnd (h : Sound cfg env) : Sound cfg (stopAtEnd env) := by
  rw [PromptMix.stopAtEnd]
  split
  · rw [audioPromptStopPlaying]
    split
    · exact ⟨h.crossfades, h.in_lt, h.out_lt, h.whole⟩
    · exact h
  · exact h

theorem stopAtEnd_queue (env : Env) : (stopAtEnd env).pcmDataQueue = env.pcmDataQueue := by
  rw [stopAtEnd, audioPromptStopPlaying]
  split
  · split <;> rfl
  · rfl

theorem stopAtEnd_left (h : env.leftEncodedDataLen = 0) : (stopAtEnd env).leftEncodedDataLen = 0 := by
  rw [stopAtEnd, audioPromptStopPlaying]
  split
  · split
    · rfl
    · exact h
  · exact h

/-- While the prompt is on, something is left of its end. -/
theorem stopAtEnd_on (h : (stopAtEnd env).isMixPromptOn = true) : 0 < env.mergeOutOverlapLength := by
  rw [stopAtEnd, audioPromptStopPlaying] at h
  split at h
  · split at h
    · cases h
    · rename_i hoff
      exact absurd h hoff
  · omega

theorem toGet_le (cfg : Config) (len : Nat) : cfg.toGet len ≤ len := Nat.div_le_self _ _

/-- What is merged is in the buffer. -/
theorem merged_le {merged : Nat} (h : merged ≤ cfg.toGet len) :
    merged * cfg.channels.count / 2 ≤ len / cfg.targetBytesCntPerSample := by
  rw [Config.toGet] at h
  cases hchannels : cfg.channels <;> cases hwide : cfg.wide <;>
    simp only [hchannels, Config.targetBytesCntPerSample, hwide, Channels.count, if_true, if_false, Bool.false_eq_true] at h ⊢ <;>
    omega

/-- With two channels a prompt's byte goes with each sample of the buffer. -/
theorem toGet_stereo (h : cfg.channels = .stereo) (len : Nat) : cfg.toGet len = len / cfg.targetBytesCntPerSample := by
  rw [Config.toGet, h]
  cases hwide : cfg.wide <;> simp only [Config.targetBytesCntPerSample, hwide, Channels.count, if_true, if_false, Bool.false_eq_true]

/-- Nothing is left over by a call behind the last of the encoded data. -/
theorem Fits.queue_pos (hs : Sound cfg env) (hf : Fits cfg len decodes env) (hget : 0 < cfg.toGet len)
    (hleft : env.leftEncodedDataLen = 0) (hfilled : filled cfg env.pcmDataQueue decodes = env.pcmDataQueue)
    (hout : 0 < env.mergeOutOverlapLength) : 0 < env.pcmDataQueue := by
  rw [Fits] at hf
  split at hf
  · refine Nat.pos_of_ne_zero fun hzero => ?_
    have hwhole := hs.whole
    have hends : Ends cfg len decodes env := by
      refine ⟨by omega, ?_⟩
      rw [hfilled, hzero]
      cases hchannels : cfg.channels <;> simp only [hchannels, Channels.count] at hwhole ⊢ <;> omega
    have hfit := hf.1 hget hends
    rw [OverlapsFit, hfilled, hzero, Nat.min_zero, Nat.zero_mul, Nat.zero_div] at hfit
    omega
  · omega

/-- What is merged where the call fits. -/
theorem Fits.merge_sound {done : Bool} (hs : Sound cfg env) (hf : Fits cfg len decodes env) (hlen : len ≤ pcmFillUnitSize) (hme : cfg.isMe = true)
    (hget : 0 < min (cfg.toGet len) (filled cfg env.pcmDataQueue decodes)) {env₂ : Env}
    (henv₂ : env₂ = { env with
      leftEncodedDataLen := env.leftEncodedDataLen - consumed decodes
      isAudioPromptDecodingDone := done
      pcmDataQueue := filled cfg env.pcmDataQueue decodes - min (cfg.toGet len) (filled cfg env.pcmDataQueue decodes) }) :
    ∃ mergeIn mergeOut c,
      merge cfg (len / cfg.targetBytesCntPerSample) (min (cfg.toGet len) (filled cfg env.pcmDataQueue decodes)) env₂ = { env₂ with
        mergeInOverlapLength := mergeIn, mergeOutOverlapLength := mergeOut, crossfades := env₂.crossfades ++ [c] } ∧
      Sound cfg { env₂ with mergeInOverlapLength := mergeIn, mergeOutOverlapLength := mergeOut, crossfades := env₂.crossfades ++ [c] } := by
  rw [Fits, if_pos hme] at hf
  obtain ⟨hends, hpairs⟩ := hf
  have hle := toGet_le cfg len
  have hends' : env₂.leftEncodedDataLen = 0 ∧ env₂.pcmDataQueue < env₂.mergeOutOverlapLength / cfg.channels.count * 2 →
      Ends cfg len decodes env := by
    rw [henv₂]
    exact fun h => ⟨Nat.le_of_sub_eq_zero h.1, h.2⟩
  have hshort : min (cfg.toGet len) (filled cfg env.pcmDataQueue decodes) < 2 ^ 14 := by
    simp only [pcmFillUnitSize] at hlen
    omega
  obtain ⟨mergeIn, mergeOut, c, hmerge, hc, hin, hout, hwhole⟩ := merge_spec cfg env₂ (len / cfg.targetBytesCntPerSample)
    hshort (by rw [henv₂]; exact hs.in_lt) (by rw [henv₂]; exact hs.out_lt)
    (by rw [henv₂]; exact hs.whole) (merged_le (Nat.min_le_left _ _))
    (fun h => by rw [henv₂]; exact hends (by omega) (hends' h))
    (fun hstereo hodd hroom => by
      rw [← toGet_stereo hstereo] at hroom
      have hall : cfg.toGet len ≤ filled cfg env.pcmDataQueue decodes := by omega
      rw [Nat.min_eq_left hall] at hodd ⊢
      obtain ⟨hless, hno⟩ := hpairs hstereo hodd hall
      refine ⟨by rw [henv₂]; exact hless, fun ⟨hodd', hends'', hmeet⟩ => hno ⟨by rw [henv₂] at hodd'; exact hodd', hends' hends'', ?_⟩⟩
      rw [henv₂, Nat.min_eq_left hall] at hmeet
      exact hmeet)
  refine ⟨mergeIn, mergeOut, c, hmerge, ?_, ?_, ?_, hwhole⟩
  · intro c' hc'
    rcases List.mem_append.mp hc' with hold | hnew
    · rw [henv₂] at hold
      exact hs.crossfades c' hold
    · rw [List.mem_singleton.mp hnew]
      exact hc
  · rw [henv₂] at hin
    exact Nat.lt_of_le_of_lt hin hs.in_lt
  · rw [henv₂] at hout
    exact Nat.lt_of_le_of_lt hout hs.out_lt

theorem stopAtEnd_was_on (h : (stopAtEnd env).isMixPromptOn = true) : env.isMixPromptOn = true := by
  rw [stopAtEnd, audioPromptStopPlaying] at h
  split at h
  · split at h
    · cases h
    · exact h
  · exact h

/-- What the turns for these units do once the encoded data is used up: they take from the queue, as long as
the prompt is on. -/
structure Drains (cfg : Config) (lens : List Nat) (env env' : Env) : Prop where
  left : env'.leftEncodedDataLen = 0
  on : env'.isMixPromptOn = true → env.isMixPromptOn = true
  le : env'.pcmDataQueue ≤ env.pcmDataQueue
  lt : (∃ len ∈ lens, 0 < cfg.toGet len) → env'.isMixPromptOn = true → env'.pcmDataQueue < env.pcmDataQueue

/-- A turn that takes something from the queue. -/
theorem Drains.of_lt {env₂ : Env} (hleft : env₂.leftEncodedDataLen = 0) (hon : env₂.isMixPromptOn = env.isMixPromptOn)
    (hless : env₂.pcmDataQueue < env.pcmDataQueue) : Drains cfg [len] env (PromptMix.stopAtEnd env₂) where
  left := stopAtEnd_left hleft
  on h := hon ▸ stopAtEnd_was_on h
  le := by
    rw [stopAtEnd_queue]
    exact Nat.le_of_lt hless
  lt _ _ := by
    rw [stopAtEnd_queue]
    exact hless

/-- A turn that fits. -/
theorem func_spec (hs : Sound cfg env) (hf : Fits cfg len decodes env) (hlen : len ≤ pcmFillUnitSize)
    (h : audioPromptProcessingHandlerFunc cfg len decodes env = some env') :
    Sound cfg env' ∧ (env.leftEncodedDataLen = 0 → Drains cfg [len] env env') := by
  obtain ⟨env₁, hfill, rfl⟩ := Option.map_eq_some_iff.mp h
  obtain ⟨done, _, henv₁, hqueue⟩ := fillQueue_spec hfill
  have hmin : (if filled cfg env.pcmDataQueue decodes < cfg.toGet len then filled cfg env.pcmDataQueue decodes else cfg.toGet len) =
      min (cfg.toGet len) (filled cfg env.pcmDataQueue decodes) := by
    split <;> omega
  have hleft₁ : env.leftEncodedDataLen = 0 → env.leftEncodedDataLen - consumed decodes = 0 := by omega
  rw [henv₁]
  simp only [hmin]
  by_cases hzero : min (cfg.toGet len) (filled cfg env.pcmDataQueue decodes) = 0
  · rw [if_pos hzero]
    refine ⟨Sound.stopAtEnd ⟨hs.crossfades, hs.in_lt, hs.out_lt, hs.whole⟩, fun hleft => ?_⟩
    refine ⟨stopAtEnd_left (hleft₁ hleft), stopAtEnd_was_on, ?_, fun hunit hon => ?_⟩
    · rw [stopAtEnd_queue]
      exact Nat.le_of_eq (hqueue hleft)
    · -- the queue is empty, and something is left of the crossfade at the end
      obtain ⟨_, hmem, hget⟩ := hunit
      rw [List.mem_singleton.mp hmem] at hget
      have hout := stopAtEnd_on hon
      have hpos := hf.queue_pos hs hget hleft (hqueue hleft) hout
      rw [hqueue hleft] at hzero
      omega
  · rw [if_neg hzero]
    have hpos := Nat.pos_of_ne_zero hzero
    obtain ⟨env₂, henv₂⟩ : ∃ env₂ : Env, env₂ = { env with
      leftEncodedDataLen := env.leftEncodedDataLen - consumed decodes
      isAudioPromptDecodingDone := done
      pcmDataQueue := filled cfg env.pcmDataQueue decodes - min (cfg.toGet len) (filled cfg env.pcmDataQueue decodes) } := ⟨_, rfl⟩
    have hleft₂ : env.leftEncodedDataLen = 0 → env₂.leftEncodedDataLen = 0 := by
      rw [henv₂]
      exact hleft₁
    have hon₂ : env₂.isMixPromptOn = env.isMixPromptOn := by rw [henv₂]
    have hless : env.leftEncodedDataLen = 0 → env₂.pcmDataQueue < env.pcmDataQueue := by
      intro hleft
      rw [henv₂, hqueue hleft]
      rw [hqueue hleft] at hpos
      simp only
      omega
    rw [← henv₂]
    split
    · rename_i hme
      obtain ⟨mergeIn, mergeOut, c, hmerge, hsound⟩ := hf.merge_sound hs hlen hme hpos henv₂
      rw [hmerge]
      exact ⟨hsound.stopAtEnd, fun hleft => .of_lt (hleft₂ hleft) hon₂ (hless hleft)⟩
    · have hsound : Sound cfg env₂ := by
        rw [henv₂]
        exact ⟨hs.crossfades, hs.in_lt, hs.out_lt, hs.whole⟩
      exact ⟨hsound.stopAtEnd, fun hleft => .of_lt (hleft₂ hleft) hon₂ (hless hleft)⟩

/-- Once the encoded data is used up, a turn needs one answer of the decoder at most. -/
theorem func_defined (cfg : Config) (len : Nat) (hleft : env.leftEncodedDataLen = 0) :
    ∃ decodes env', audioPromptProcessingHandlerFunc cfg len decodes env = some env' ∧ env'.leftEncodedDataLen = 0 := by
  obtain ⟨decodes, env₁, hfill⟩ : ∃ decodes env₁, fillQueue cfg (cfg.toGet len) env decodes = some env₁ := by
    by_cases hmore : env.pcmDataQueue < cfg.toGet len ∧ env.isAudioPromptDecodingDone = false
    · have hnothing : audioPromptSbcDecode env.leftEncodedDataLen 0 [⟨0, 0, true⟩] = some (0, 0) := by
        rw [hleft]
        rfl
      refine ⟨[[⟨0, 0, true⟩]], ?_⟩
      rw [fillQueue, if_pos hmore, hnothing, Option.bind_some]
      simp only
      rw [fillQueue, if_neg (by simp [pcmDataSizePerFrame])]
      exact ⟨_, rfl⟩
    · refine ⟨[], env, ?_⟩
      rw [fillQueue, if_neg hmore]
  obtain ⟨done, _, henv₁, _⟩ := fillQueue_spec hfill
  have hleft₁ : env₁.leftEncodedDataLen = 0 := by
    rw [henv₁]
    simp only
    omega
  refine ⟨decodes, _, congrArg (Option.map _) hfill, ?_⟩
  simp only
  generalize (if env₁.pcmDataQueue < cfg.toGet len then env₁.pcmDataQueue else cfg.toGet len) = merged
  split
  · exact stopAtEnd_left hleft₁
  · apply stopAtEnd_left
    split
    · exact hleft₁
    · exact hleft₁

end Calls

/-! ## The units of a buffer -/

section Units

variable {cfg : Config} {env env' : Env} {lens : List Nat} {n : Nat}

theorem lensToGet_le {len : Nat} (h : len ∈ lensToGet n) : len ≤ pcmFillUnitSize := by
  induction n using lensToGet.induct with
  | case1 =>
    rw [lensToGet, dif_pos rfl] at h
    cases h
  | case2 n hnonzero hmore ih =>
    rw [lensToGet, dif_neg hnonzero, if_pos hmore] at h
    rcases List.mem_cons.mp h with rfl | htail
    · exact Nat.le_refl _
    · exact ih htail
  | case3 n hnonzero hlast =>
    rw [lensToGet, dif_neg hnonzero, if_neg hlast] at h
    rw [List.mem_singleton.mp h]
    exact Nat.le_of_not_lt hlast

theorem Config.toGet_unit_pos (cfg : Config) : 0 < cfg.toGet pcmFillUnitSize := by
  rw [Config.toGet, Config.targetBytesCntPerSample]
  cases cfg.channels <;> cases cfg.wide <;> decide

/-- A buffer that takes something of the prompt has a unit that does. -/
theorem exists_unit (h : 0 < cfg.toGet n) : ∃ len ∈ lensToGet n, 0 < cfg.toGet len := by
  have hnonzero : n ≠ 0 := by
    rintro rfl
    rw [Config.toGet, Nat.zero_div] at h
    exact Nat.lt_irrefl 0 h
  rw [lensToGet, dif_neg hnonzero]
  split
  · exact ⟨_, List.mem_cons_self, cfg.toGet_unit_pos⟩
  · exact ⟨_, List.mem_singleton_self _, h⟩

theorem Drains.refl (h : env.leftEncodedDataLen = 0) : Drains cfg [] env env where
  left := h
  on := id
  le := Nat.le_refl _
  lt hunit := by
    obtain ⟨_, hmem, _⟩ := hunit
    cases hmem

theorem Drains.cons {len : Nat} {env₁ : Env} (h₁ : Drains cfg [len] env env₁) (h₂ : Drains cfg lens env₁ env') :
    Drains cfg (len :: lens) env env' where
  left := h₂.left
  on hon := h₁.on (h₂.on hon)
  le := Nat.le_trans h₂.le h₁.le
  lt hunit hon := by
    obtain ⟨unit, hmem, hget⟩ := hunit
    rcases List.mem_cons.mp hmem with rfl | htail
    · exact Nat.lt_of_le_of_lt h₂.le (h₁.lt ⟨_, List.mem_singleton_self _, hget⟩ (h₂.on hon))
    · exact Nat.lt_of_lt_of_le (h₂.lt ⟨_, htail, hget⟩ hon) h₁.le

theorem processUnits_spec {decodes : List (List (List Reply))} (hs : Sound cfg env) (hf : FitsUnits cfg lens decodes env)
    (hlens : ∀ len ∈ lens, len ≤ pcmFillUnitSize) (h : processUnits cfg lens decodes env = some env') :
    Sound cfg env' ∧ (env.leftEncodedDataLen = 0 → Drains cfg lens env env') := by
  induction lens generalizing decodes env with
  | nil =>
    cases decodes with
    | nil =>
      obtain rfl := Option.some_inj.mp h
      exact ⟨hs, Drains.refl⟩
    | cons replies more => cases h
  | cons len lens ih =>
    cases decodes with
    | nil => cases h
    | cons replies more =>
      obtain ⟨env₁, hfunc, hunits⟩ := Option.bind_eq_some_iff.mp h
      obtain ⟨hfirst, hrest⟩ := hf
      obtain ⟨hs₁, hdrains⟩ := func_spec hs hfirst (hlens len List.mem_cons_self) hfunc
      obtain ⟨hs', hdrains'⟩ := ih hs₁ (hrest env₁ hfunc) (fun unit hmem => hlens unit (List.mem_cons_of_mem _ hmem)) hunits
      exact ⟨hs', fun hleft => (hdrains hleft).cons (hdrains' (hdrains hleft).left)⟩

theorem processUnits_defined (cfg : Config) (lens : List Nat) (hleft : env.leftEncodedDataLen = 0) :
    ∃ decodes env', processUnits cfg lens decodes env = some env' := by
  induction lens generalizing env with
  | nil => exact ⟨[], env, rfl⟩
  | cons len lens ih =>
    obtain ⟨decodes, env₁, hfunc, hleft₁⟩ := func_defined cfg len hleft
    obtain ⟨more, env', hunits⟩ := ih hleft₁
    refine ⟨decodes :: more, env', ?_⟩
    rw [processUnits, hfunc]
    exact hunits

end Units

/-! ## Runs -/

section Calls

variable {cfg : Config} {env env' : Env} {calls more : List Call}

theorem Sound.start (cfg : Config) (promptDataLen queue : Nat) : Sound cfg (audioPromptStartPlaying cfg promptDataLen queue) where
  crossfades _ h := by cases h
  in_lt := Nat.mod_lt _ (by decide)
  out_lt := Nat.mod_lt _ (by decide)
  whole := by
    rw [audioPromptStartPlaying]
    cases cfg.channels <;> simp only [Channels.count] <;> omega

theorem call_spec {call : Call} (hs : Sound cfg env) (hf : FitsCall cfg call env)
    (h : audioPromptProcessingHandler cfg call env = some env') :
    Sound cfg env' ∧ (env.leftEncodedDataLen = 0 → Drains cfg (lensToGet call.acquiredPcmDataLen) env env') :=
  processUnits_spec hs hf (fun _ => lensToGet_le) h

/-- Calls that find nothing of the encoded data left: each one takes something from the queue, as long as the
prompt is on. -/
theorem drains_run (hs : Sound cfg env) (hleft : env.leftEncodedDataLen = 0)
    (h : Run (audioPromptProcessingHandler cfg) (FitsCall cfg) (· = env) env' more) :
    Sound cfg env' ∧ env'.leftEncodedDataLen = 0 ∧
      ((∀ call ∈ more, 0 < cfg.toGet call.acquiredPcmDataLen) → env'.isMixPromptOn = true →
        env'.pcmDataQueue + more.length ≤ env.pcmDataQueue) := by
  induction h with
  | nil h =>
    rw [h]
    exact ⟨hs, hleft, fun _ _ => Nat.le_refl _⟩
  | snoc _ hc hstep ih =>
    obtain ⟨hs₁, hleft₁, hqueue⟩ := ih
    obtain ⟨hs', hdrains⟩ := call_spec hs₁ hc hstep
    have hdrains := hdrains hleft₁
    refine ⟨hs', hdrains.left, fun hbuffers hon => ?_⟩
    have hlt := hdrains.lt (exists_unit (hbuffers _ (List.mem_append_right _ (List.mem_singleton_self _)))) hon
    have hle := hqueue (fun call hmem => hbuffers call (List.mem_append_left _ hmem)) (hdrains.on hon)
    rw [List.length_append, List.length_singleton]
    omega

/-- Where each turn fits, all crossfades stay in their buffers and take no more than what is left of them.
Once the encoded data is used up a call needs little of the decoder, and after so many calls as the
queue has bytes the prompt is stopped. -/
theorem prompt_mixing_runs (cfg : Config) (promptDataLen queue : Nat) {env : Env} {calls : List Call}
    (h : Run (audioPromptProcessingHandler cfg) (FitsCall cfg) (· = audioPromptStartPlaying cfg promptDataLen queue) env calls) :
    (∀ c ∈ env.crossfades, c.InBounds) ∧
      (env.leftEncodedDataLen = 0 →
        (∀ acquiredPcmDataLen, ∃ decodes env', audioPromptProcessingHandler cfg ⟨acquiredPcmDataLen, decodes⟩ env = some env') ∧
          ∀ env' more, Run (audioPromptProcessingHandler cfg) (FitsCall cfg) (· = env) env' more →
            (∀ call ∈ more, 0 < cfg.toGet call.acquiredPcmDataLen) → env.pcmDataQueue < more.length →
              env'.isMixPromptOn = false) := by
  have hs : Sound cfg env := by
    refine h.inv (Sound cfg) ?_ fun call env env' hs hc hstep => (call_spec hs hc hstep).1
    rintro _ rfl
    exact Sound.start cfg promptDataLen queue
  refine ⟨hs.crossfades, fun hleft => ⟨fun n => processUnits_defined cfg (lensToGet n) hleft, fun env' more hmore hbuffers hlong => ?_⟩⟩
  obtain ⟨_, _, hqueue⟩ := drains_run hs hleft hmore
  -- a prompt that is still on has taken a byte of the queue in each of the calls
  refine Bool.eq_false_iff.mpr fun hon => ?_
  have hle := hqueue hbuffers hon
  omega

end Calls

/-- A prompt that both earbuds play into a phone call of 16 kHz. -/
def callConfig : Config where
  channels := .mono
  wide := false
  targetSampleRate := 16000
  scaled n := n
  scaled_zero := rfl
  promptPram := 0x6000
  audio_chnl_sel := .lchnl

/-- A frame that is decoded at once. -/
def wholeFrame : Reply := ⟨160, 256, true⟩

/-- The calls of a prompt of three frames up to the last of them, a part of which is still in the queue. -/
def wholeCalls : List Call := [⟨512, [[[wholeFrame], [wholeFrame]]]⟩, ⟨128, [[[wholeFrame]]]⟩]

theorem prompt_mixing_runs_whole : ∃ env,
    Run (audioPromptProcessingHandler callConfig) (FitsCall callConfig) (· = audioPromptStartPlaying callConfig 480 0) env wholeCalls ∧
      env.isMixPromptOn = true ∧ env.crossfades.length = 2 ∧ (∀ c ∈ env.crossfades, c.InBounds) ∧
      ∀ env' more, Run (audioPromptProcessingHandler callConfig) (FitsCall callConfig) (· = env) env' more →
        (∀ call ∈ more, 0 < callConfig.toGet call.acquiredPcmDataLen) → env.pcmDataQueue < more.length →
          env'.isMixPromptOn = false := by
  obtain ⟨env, hrun, hend⟩ := exists_run_of_check (audioPromptProcessingHandler callConfig) (FitsCall callConfig)
    (· = audioPromptStartPlaying callConfig 480 0) (some (audioPromptStartPlaying callConfig 480 0)) wholeCalls
    (fun env => env.leftEncodedDataLen == 0 && env.isMixPromptOn && env.crossfades.length == 2)
    (fun _ h => (Option.some_inj.mp h).symm) (by decide +kernel)
  simp only [Bool.and_eq_true, beq_iff_eq] at hend
  obtain ⟨⟨hleft, hon⟩, hcrossfades⟩ := hend
  obtain ⟨hbounds, hends⟩ := prompt_mixing_runs callConfig 480 0 hrun
  exact ⟨env, hrun, hon, hcrossfades, hbounds, (hends hleft).2⟩

/-- A prompt with some bytes behind its last frame: nothing comes of them, and less than the crossfade at
the end is left. -/
theorem prompt_goes_over_the_end : ∃ env,
    Run (audioPromptProcessingHandler callConfig) (fun _ _ => True) (· = audioPromptStartPlaying callConfig 165 0) env
        [⟨156, [[[wholeFrame]]]⟩, ⟨156, [[[⟨5, 0, true⟩]]]⟩] ∧
      ∃ c ∈ env.crossfades, c.src_len < c.merge_out_start := by
  obtain ⟨env, hrun, hend⟩ := exists_run_of_check (audioPromptProcessingHandler callConfig) (fun _ _ => True)
    (· = audioPromptStartPlaying callConfig 165 0) (some (audioPromptStartPlaying callConfig 165 0))
    [⟨156, [[[wholeFrame]]]⟩, ⟨156, [[[⟨5, 0, true⟩]]]⟩]
    (fun env => env.crossfades.any fun c => decide (c.src_len < c.merge_out_start))
    (fun _ h => (Option.some_inj.mp h).symm) (by decide +kernel)
  obtain ⟨c, hmem, hover⟩ := List.any_eq_true.mp hend
  exact ⟨env, hrun, c, hmem, of_decide_eq_true hover⟩

/-! ## The prompt of the other earbud -/

section NotHeard

variable {cfg : Config} {env env' : Env}

/-- A turn for a prompt that is not heard on this earbud, with something left of its end. -/
theorem func_not_heard {decodes : List (List Reply)} {len : Nat} (hme : cfg.isMe = false) (hout : 0 < env.mergeOutOverlapLength)
    (h : audioPromptProcessingHandlerFunc cfg len decodes env = some env') :
    env'.mergeOutOverlapLength = env.mergeOutOverlapLength ∧ env'.isMixPromptOn = env.isMixPromptOn := by
  obtain ⟨env₁, hfill, rfl⟩ := Option.map_eq_some_iff.mp h
  obtain ⟨done, _, henv₁, _⟩ := fillQueue_spec hfill
  have hnonzero : env₁.mergeOutOverlapLength ≠ 0 := by
    rw [henv₁]
    exact Nat.ne_of_gt hout
  simp only [hme, Bool.false_eq_true, if_false]
  generalize (if env₁.pcmDataQueue < cfg.toGet len then env₁.pcmDataQueue else cfg.toGet len) = merged
  split
  · rw [stopAtEnd, if_neg hnonzero, henv₁]
    exact ⟨rfl, rfl⟩
  · rw [stopAtEnd, if_neg hnonzero, henv₁]
    exact ⟨rfl, rfl⟩

theorem processUnits_not_heard {lens : List Nat} {decodes : List (List (List Reply))} (hme : cfg.isMe = false)
    (hout : 0 < env.mergeOutOverlapLength) (h : processUnits cfg lens decodes env = some env') :
    env'.mergeOutOverlapLength = env.mergeOutOverlapLength ∧ env'.isMixPromptOn = env.isMixPromptOn := by
  induction lens generalizing decodes env with
  | nil =>
    cases decodes with
    | nil =>
      obtain rfl := Option.some_inj.mp h
      exact ⟨rfl, rfl⟩
    | cons replies more => cases h
  | cons len lens ih =>
    cases decodes with
    | nil => cases h
    | cons replies more =>
      obtain ⟨env₁, hfunc, hunits⟩ := Option.bind_eq_some_iff.mp h
      obtain ⟨hout₁, hon₁⟩ := func_not_heard hme hout hfunc
      obtain ⟨hout', hon'⟩ := ih (by rw [hout₁]; exact hout) hunits
      exact ⟨hout'.trans hout₁, hon'.trans hon₁⟩

/-- A prompt that is not heard on this earbud is never stopped by the calls. -/
theorem not_heard_goes_on (hme : cfg.isMe = false) (promptDataLen queue : Nat)
    (hout : 0 < (audioPromptStartPlaying cfg promptDataLen queue).mergeOutOverlapLength) {calls : List Call}
    (h : Run (audioPromptProcessingHandler cfg) (fun _ _ => True) (· = audioPromptStartPlaying cfg promptDataLen queue) env calls) :
    env.isMixPromptOn = true := by
  refine (h.inv (fun env => 0 < env.mergeOutOverlapLength ∧ env.isMixPromptOn = true) ?_ ?_).2
  · rintro _ rfl
    exact ⟨hout, rfl⟩
  · rintro call env₁ env₂ ⟨hout₁, hon₁⟩ _ hstep
    obtain ⟨hout₂, hon₂⟩ := processUnits_not_heard hme hout₁ hstep
    exact ⟨by rw [hout₂]; exact hout₁, hon₂.trans hon₁⟩

end NotHeard

end BtApp.PromptMix
