import LittleBuddy.Lib.Interleave
import Mathlib.Data.List.Basic
/-!
# The DMA buffer of an audio stream

`af_stream_update_dma_buffer` of `services/audioflinger/audioflinger.c` divides the
buffer of a stream between the descriptors of a ring, `af_stream_start` sets up the
two-dimensional addresses of a buffer with separated channels, and
`af_thread_stream_handler` hands one half of the buffer to the stream's handler while
the DMA is in the other one.
-/

namespace Audioflinger

/-! ## The code -/

/-- `AUD_STREAM_T`. -/
inductive AudStream where
  | playback
  | capture
  deriving DecidableEq

/-- `AUD_BITS_T`. -/
inductive AudBits where
  | null
  | bits8
  | bits12
  | bits16
  | bits20
  | bits24
  | bits32
  deriving DecidableEq

/-- `AF_PP_T`. -/
inductive PP where
  | ping
  | pang
  deriving DecidableEq

/-- `HAL_DMA_MAX_DESC_XFER_SIZE`. -/
abbrev maxDescXferSize : Nat := 0xFFF

/-- `MIN_AUDIO_BUFFER_COUNT` and `MAX_AUDIO_BUFFER_COUNT` of `DYNAMIC_AUDIO_BUFFER_COUNT`. -/
abbrev minAudioBufferCount : Nat := 2

abbrev maxAudioBufferCount : Nat := 16

/-- A number of descriptors, at least 2 and rounded up to a power of two. -/
def roundCnt (desc_cnt : Nat) : Nat :=
  if desc_cnt < 2 then 2
  else if desc_cnt &&& (desc_cnt - 1) ≠ 0 then 2 ^ (Nat.log2 desc_cnt + 1)
  else desc_cnt

/-- A stream and what `af_stream_update_dma_buffer` reads of its `AF_STREAM_CONFIG_T`;
`dynamic` is the build with `DYNAMIC_AUDIO_BUFFER_COUNT`. -/
structure StreamCfg where
  dynamic : Bool
  stream : AudStream
  bits : AudBits
  channel_num : Nat
  channel_num_le : channel_num ≤ 8
  chan_sep_buf : Bool
  data_ptr : Nat
  data_size : Nat
  data_size_lt : data_size < 2 ^ 32
  /-- The buffer ends where the addresses of 32 bits do, or before. -/
  data_end : data_ptr + data_size ≤ 2 ^ 32

namespace StreamCfg

variable (c : StreamCfg)

/-- `samp_size`. -/
def sampSize : Nat :=
  match c.bits with
  | .bits24 | .bits32 => 4
  | .bits16 => 2
  | _ => 1

/-- `desc_cnt`. -/
def descCnt : Nat := roundCnt ((c.data_size / c.sampSize + maxDescXferSize - 1) / maxDescXferSize)

/-- `AUDIO_BUFFER_COUNT`. -/
def bufferCount : Nat := if c.dynamic then c.descCnt else 4

/-- `desc_xfer_size`. -/
def descXferSize : Nat := c.data_size / c.bufferCount

/-- The channels lie one behind the other, `dma_2d_en`. -/
def Separated : Prop := c.chan_sep_buf = true ∧ 1 < c.channel_num

instance : Decidable c.Separated := inferInstanceAs (Decidable (_ ∧ _))

/-- `chan_desc_xfer_size`. -/
def chanDescXferSize : Nat := c.descXferSize / c.channel_num

/-- `burst_size`, from the `src_bsize` of a playback and the `dst_bsize` of a capture, as
`af_stream_open` sets them for separated channels. -/
def burstSize : Nat :=
  match c.stream with
  | .playback => 1
  | .capture => 4

/-- `align`. -/
def align : Nat :=
  if c.Separated then
    let align := c.burstSize * c.sampSize * c.channel_num
    if align &&& 1 ≠ 0 then align * 4
    else if align &&& 2 ≠ 0 then align * 2
    else align
  else 4

/-- `src_tsize`, a `uint16_t`. -/
def srcTsize : Nat := c.descXferSize / c.sampSize % 2 ^ 16

/-- The assertions of `af_stream_update_dma_buffer`, with that of `hal_dma_init_control`
behind `hal_audma_init_desc`. -/
structure Accepted : Prop where
  bits : c.bits = .bits16 ∨ c.bits = .bits24 ∨ c.bits = .bits32
  count : c.dynamic = true → minAudioBufferCount ≤ c.descCnt ∧ c.descCnt ≤ maxAudioBufferCount
  size : c.descXferSize * c.bufferCount = c.data_size
  aligned : c.descXferSize % c.align = 0
  tsize : c.srcTsize ≤ maxDescXferSize

/-- The fields of `HAL_DMA_DESC_T` that depend on the stream: the address in the buffer,
the next descriptor, the size of the transfer and its interrupt. -/
structure DmaDesc where
  addr : Nat
  next : Nat
  tsize : Nat
  irq : Bool

/-- The descriptor with index `i`. -/
def dmaDesc (i : Nat) : DmaDesc where
  addr := if c.Separated then c.data_ptr + c.chanDescXferSize * i else c.data_ptr + c.descXferSize * i
  next := if i = c.bufferCount - 1 then 0 else i + 1
  tsize := c.srcTsize
  irq := i = c.bufferCount - 1 || i = c.bufferCount / 2 - 1

/-- `HAL_DMA_2D_CFG_T` without `ycount`; `xmodify` and `ymodify` are `int16_t`. -/
structure Dma2dCfg where
  burst : Nat
  xcount : Nat
  xmodify : Int
  ymodify : Int

/-- `chan_xfer_cnt` of `af_stream_start`. -/
def chanXferCnt : Nat := c.srcTsize * c.bufferCount / c.channel_num

/-- The `dma_2d_cfg` of `af_stream_start`. -/
def dma2dCfg : Dma2dCfg where
  burst := c.burstSize
  xcount := c.channel_num
  xmodify := Int.bmod (c.chanXferCnt - c.burstSize) (2 ^ 16)
  ymodify := Int.bmod (-(c.chanXferCnt * (c.channel_num - 1))) (2 ^ 16)

/-- The two-dimensional addresses that `af_stream_start` starts the DMA with, if any. -/
def dma2d : Option Dma2dCfg :=
  if c.Separated then
    match c.stream with
    | .playback => if c.channel_num = 2 then some c.dma2dCfg else none
    | .capture => some c.dma2dCfg
  else none

/-- How many samples behind its first one a descriptor's transfer `t` is: in two dimensions
`xmodify` is added behind a burst, and `ymodify` instead behind `xcount` of them. -/
def transferOffset (t : Nat) : Int :=
  match c.dma2d with
  | some d => Interleave.walk d.burst d.xcount d.xmodify d.ymodify t
  | none => t

/-- The address of transfer `t` of descriptor `i`. -/
def transferAddr (i t : Nat) : Int := (c.dmaDesc i).addr + c.sampSize * c.transferOffset t

/-- The index that `af_thread_stream_handler` finds from the DMA's address. -/
def ppIndex (pp_index : PP) (dma_addr : Nat) : PP :=
  let hw_pos := (dma_addr + 2 ^ 32 - c.data_ptr) % 2 ^ 32
  if c.Separated then
    let chan_size := c.data_size / c.channel_num
    if hw_pos ≤ c.data_size then
      if hw_pos % chan_size < chan_size / 2 then .pang
      else if hw_pos % chan_size < chan_size then .ping
      else pp_index
    else pp_index
  else
    if hw_pos < c.data_size / 2 then .pang
    else if hw_pos < c.data_size then .ping
    else pp_index

/-- `buf` of `af_thread_stream_handler`. -/
def buf (pp_index : PP) (dma_addr : Nat) : Nat :=
  match c.ppIndex pp_index dma_addr with
  | .ping => c.data_ptr
  | .pang => c.data_ptr + if c.Separated then c.data_size / c.channel_num / 2 else c.data_size / 2

/-- `len` of `af_thread_stream_handler`. -/
def len : Nat := c.data_size / 2

/-! ## Double buffering -/

/-- Transfer `t` of descriptor `i` moves the byte at `a`. -/
def Covers (i t : Nat) (a : Int) : Prop :=
  i < c.bufferCount ∧ t < (c.dmaDesc i).tsize ∧ c.transferAddr i t ≤ a ∧ a < c.transferAddr i t + c.sampSize

/-- The byte at `a` is in the buffer. -/
def InBuffer (a : Int) : Prop := c.data_ptr ≤ a ∧ a < c.data_ptr + c.data_size

/-- The byte at `a` is one of those that the handler gets with `buf`: `len` bytes, or with
separated channels a part of them in each channel. -/
def Handed (buf : Nat) (a : Int) : Prop :=
  if c.Separated then
    ∃ ch < c.channel_num, (buf + ch * (c.data_size / c.channel_num) : Nat) ≤ a ∧
      a < (buf + ch * (c.data_size / c.channel_num) + c.len / c.channel_num : Nat)
  else buf ≤ a ∧ a < (buf + c.len : Nat)

/-- How many bytes have been moved at the interrupts of a turn over the ring. -/
def interrupts : List Nat :=
  ((List.range c.bufferCount).filter fun i => (c.dmaDesc i).irq).map fun i => (i + 1) * (c.srcTsize * c.sampSize)

/-- The descriptors are in the same half of the ring, between two interrupts. -/
def SameHalf (i i' : Nat) : Prop := i < c.bufferCount / 2 ↔ i' < c.bufferCount / 2

/-- The ring covers every byte of the buffer once and no other byte, with interrupts in
the middle and at the end, and the handler gets no byte of the half that the DMA is in. -/
structure DoubleBuffered : Prop where
  covers : ∀ a, c.InBuffer a → ∃! p : Nat × Nat, c.Covers p.1 p.2 a
  inside : ∀ i t a, c.Covers i t a → c.InBuffer a
  ring : ∀ i < c.bufferCount, (c.dmaDesc i).next = (i + 1) % c.bufferCount
  limit : c.dynamic = true → ∀ i < c.bufferCount, (c.dmaDesc i).tsize ≤ maxDescXferSize
  interrupts : c.interrupts = [c.data_size / 2, c.data_size]
  handed : ∀ pp_index (a : Nat) i t, c.Covers i t a → ∀ i' t' b, c.Covers i' t' b → c.SameHalf i i' →
    ¬ c.Handed (c.buf pp_index a) b

end StreamCfg

end Audioflinger
