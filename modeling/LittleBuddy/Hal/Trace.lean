import LittleBuddy.Lib.Ring
import LittleBuddy.Lib.Runs
import Mathlib.Algebra.Group.Nat.Defs
/-!
# The trace ring

`platform/hal/hal_trace.c` with a UART: `hal_trace_output` copies messages into
a ring of `TRACE_BUF_SIZE` bytes, and the DMA takes them to the UART in
transfers of one or two descriptors. A message that does not fit is rejected and
counted, and the next one that fits comes behind a notice with the number.

The build has one processor, without `AUDIO_DEBUG_V0_1_0`.
-/
open Ring Runs

namespace Hal.Trace

/-- `TRACE_BUF_SIZE`, as far as the static assertion admits it. -/
structure Config where
  traceBufSize : Nat
  pos : 0 < traceBufSize
  fits : traceBufSize < 2 ^ 16

/-- `HAL_TRACE_BUF_T`. -/
structure Buf where
  buf : Int → UInt8
  wptr : Nat
  rptr : Nat
  sends : Nat × Nat
  discards : Nat
  sending : Bool
  in_trace : Bool
  wrapped : Bool

/-- `HAL_DMA_DESC_T`: `src_tsize` bytes of the buffer from `src` on. -/
structure Desc where
  src : Nat
  src_tsize : Nat
  deriving DecidableEq

/-- `HAL_DMA_MAX_DESC_XFER_SIZE`. -/
abbrev maxDescXferSize : Nat := 0xfff

/-! ## Sending -/

/-- The sizes that `hal_trace_uart_send` computes, in `uint32_t`. -/
def sendSizes (cfg : Config) (wptr rptr : Nat) : Nat × Nat :=
  let toEnd := (cfg.traceBufSize + 2 ^ 32 - rptr) % 2 ^ 32
  let sends :=
    if wptr > rptr then (wptr - rptr, 0)
    else (toEnd, if toEnd ≤ maxDescXferSize then wptr else 0)
  let sends := if sends.1 > maxDescXferSize then (maxDescXferSize, sends.1 - maxDescXferSize) else sends
  (sends.1, min sends.2 maxDescXferSize)

/-- The buffer, and the descriptors that the DMA was started with last. -/
structure Dev where
  trace : Buf
  dma_desc : List Desc

/-- `hal_trace_uart_send`. -/
def halTraceUartSend (cfg : Config) (d : Dev) : Dev :=
  let wptr := d.trace.wptr
  let rptr := d.trace.rptr
  if !d.trace.sending ∧ wptr ≠ rptr then
    let sends := sendSizes cfg wptr rptr
    let next := if rptr + sends.1 < cfg.traceBufSize then rptr + sends.1 else 0
    { trace := { d.trace with sending := true, sends }
      dma_desc := if sends.2 = 0 then [⟨rptr, sends.1⟩] else [⟨rptr, sends.1⟩, ⟨next, sends.2⟩] }
  else d

/-- What `hal_trace_uart_xfer_done` takes for sent. -/
def doneSizes (sends : Nat × Nat) (remain_tsize : Nat) (error lli : Bool) : Nat × Nat :=
  if error then
    if lli ∨ sends.2 = 0 then (if sends.1 > remain_tsize then sends.1 - remain_tsize else 0, 0)
    else (sends.1, if sends.2 > remain_tsize then sends.2 - remain_tsize else 0)
  else sends

/-- `hal_trace_uart_xfer_done`. -/
def halTraceUartXferDone (cfg : Config) (remain_tsize : Nat) (error lli : Bool) (d : Dev) : Dev :=
  let sends := doneSizes d.trace.sends remain_tsize error lli
  -- `rptr` is an `unsigned short`
  let rptr := (d.trace.rptr + (sends.1 + sends.2)) % 2 ^ 16
  let rptr := if rptr ≥ cfg.traceBufSize then rptr - cfg.traceBufSize else rptr
  halTraceUartSend cfg { d with trace := { d.trace with rptr, sends := (0, 0), sending := false } }

/-! ## Output -/

/-- The digits of a number, the last one first. -/
def digits : Nat → Nat → List UInt8
  | 0, _ => []
  | room + 1, discards =>
    UInt8.ofNat (discards % 10 + 48) :: if discards / 10 = 0 then [] else digits room (discards / 10)

/-- `"\r\nLOST "`. -/
def discardsPrefix : List UInt8 := [13, 10, 76, 79, 83, 84, 32]

/-- `sizeof(discards_buf)`. -/
abbrev discardsBufSize : Nat := 14

/-- `discards_buf`, as `hal_trace_print_discards` fills it in. -/
def discardsBuf (discards : Nat) : List UInt8 :=
  discardsPrefix ++ (digits 5 (min discards 99999)).reverse ++ [13, 10]

/-- The copy to the buffer, in two parts around its end, of `hal_trace_output` and
`hal_trace_print_discards`. Only the first of these keeps that the end was reached. -/
def copyIn (cfg : Config) (marks : Bool) (l : List UInt8) (t : Buf) : Buf :=
  -- `size` and `wptr` are 16 bits wide
  let size := (cfg.traceBufSize + 2 ^ 16 - t.wptr) % 2 ^ 16
  let size := if size ≥ l.length then l.length else size
  let buf := store t.buf t.wptr (l.take size)
  let buf := if size < l.length then store buf 0 (l.drop size) else buf
  let wptr := (t.wptr + l.length) % 2 ^ 16
  if wptr ≥ cfg.traceBufSize then
    { t with buf, wptr := wptr - cfg.traceBufSize, wrapped := t.wrapped || marks }
  else { t with buf, wptr }

/-- `hal_trace_print_discards`. -/
def halTracePrintDiscards (cfg : Config) (discards : Nat) (t : Buf) : Buf := copyIn cfg false (discardsBuf discards) t

/-- `avail`, in `uint32_t`. -/
def avail (cfg : Config) (t : Buf) : Nat :=
  if t.wptr ≥ t.rptr then (cfg.traceBufSize + 2 ^ 32 - (t.wptr - t.rptr) - 1) % 2 ^ 32 else t.rptr - t.wptr - 1

/-- `out_len`, in `uint32_t`. -/
def outLen (buf_len : Nat) (t : Buf) : Nat :=
  if t.discards ≠ 0 then (buf_len + discardsBufSize) % 2 ^ 32 else buf_len

/-- The `ret` of `hal_trace_output`: the message is rejected. -/
def rejects (cfg : Config) (buf_len : Nat) (t : Buf) : Bool := !t.in_trace ∧ avail cfg t < outLen buf_len t

/-- `hal_trace_output`, with its return value. -/
def halTraceOutput (cfg : Config) (buf : List UInt8) (d : Dev) : Nat × Dev :=
  let ret := if rejects cfg buf.length d.trace then 0 else buf.length
  let t := d.trace
  if t.in_trace then (ret, d)
  else if rejects cfg buf.length t then
    (ret, { d with trace := { t with discards := if t.discards < 2 ^ 16 - 1 then t.discards + 1 else t.discards } })
  else
    let t := if t.discards ≠ 0 then { halTracePrintDiscards cfg t.discards t with discards := 0 } else t
    (ret, halTraceUartSend cfg { d with trace := copyIn cfg true buf t })

/-- `hal_trace_get_history_buffer`: two parts of the buffer, with the offset of the first byte unless it is `NULL`. -/
def halTraceGetHistoryBuffer (cfg : Config) (t : Buf) : (Option Nat × Nat) × (Option Nat × Nat) :=
  if cfg.traceBufSize > t.wptr then
    if t.wrapped then ((some t.wptr, cfg.traceBufSize - t.wptr), (some 0, t.wptr))
    else ((some 0, t.wptr), (none, 0))
  else ((none, 0), (none, 0))

/-! ## Runs -/

/-- How a transfer ends. The remaining count is the one of the descriptor with the error. -/
inductive Completion where
  | done
  | failed (second : Bool) (remain_tsize : Nat)

/-- The bytes of a descriptor, without the last `remain` ones. -/
def Desc.bytes (buf : Int → UInt8) (d : Desc) (remain : Nat) : List UInt8 := span buf d.src (d.src_tsize - remain)

/-- The bytes that the UART got. -/
def Completion.moved (buf : Int → UInt8) : Completion → List Desc → List UInt8
  | .done, descs => descs.flatMap (·.bytes buf 0)
  | .failed false remain, d :: _ => d.bytes buf remain
  | .failed true remain, d :: d' :: _ => d.bytes buf 0 ++ d'.bytes buf remain
  | _, _ => []

/-- The DMA has a link to a next descriptor while it is on the first of two. -/
def Completion.handler (cfg : Config) (d : Dev) : Completion → Dev
  | .done => halTraceUartXferDone cfg 0 false false d
  | .failed second remain => halTraceUartXferDone cfg remain true (!second ∧ d.dma_desc.length = 2) d

/-- There is a second descriptor where it has an error. -/
def Completion.possible (descs : List Desc) : Completion → Bool
  | .failed true _ => descs.length = 2
  | _ => true

/-- The device, the bytes that the UART got, and the messages with whether they were accepted. -/
structure Sys where
  dev : Dev
  uart : List UInt8
  calls : List (List UInt8 × Bool)

inductive Event where
  | output (buf : List UInt8)
  | complete (c : Completion)

def step (cfg : Config) : Event → Sys → Option Sys
  | .output buf, s =>
    if buf.length < 2 ^ 32 then
      some { s with
        dev := (halTraceOutput cfg buf s.dev).2
        calls := s.calls ++ [(buf, !rejects cfg buf.length s.dev.trace)] }
    else none
  | .complete c, s =>
    if s.dev.trace.sending ∧ c.possible s.dev.dma_desc then
      some { s with dev := c.handler cfg s.dev, uart := s.uart ++ c.moved s.dev.trace.buf s.dev.dma_desc }
    else none

/-- As `hal_trace_open` sets it up. -/
def Init (s : Sys) : Prop :=
  s.dev.trace.wptr = 0 ∧ s.dev.trace.rptr = 0 ∧ s.dev.trace.sends = (0, 0) ∧ s.dev.trace.discards = 0 ∧
    s.dev.trace.sending = false ∧ s.dev.trace.in_trace = false ∧ s.dev.trace.wrapped = false ∧
    s.uart = [] ∧ s.calls = []

end Hal.Trace
