import LittleBuddy.Lib.Bytes
import LittleBuddy.Lib.NorMem
/-!
# The crash dump

`services/nv_section/log_section/crash_dump_section.c` writes what is put out
during a crash into sectors of the crash dump section, round and round over the
boots. A sector begins with a header that numbers it, and the start of the next
sector is looked for at each boot.

The synchronous calls of the norflash layer succeed, but for a write of no bytes,
which is refused. `flash` is the section, addressed from
`crash_dump_flash_start_addr` on, which is the start of a sector.
-/
open Bytes NorMem

namespace CrashDump

/-- `CRASH_DUMP_SECTOR_SIZE` and `CRASH_DUMP_BUFFER_LEN`. -/
abbrev sectorSize : Nat := 0x1000
abbrev bufferLen : Nat := sectorSize * 2

def crashDumpMagicCode : Nat := 0x504D5544
def crashDumpVersion : Nat := 0x00010001

/-- `CRASH_DUMP_PREFIX`, "__CRASH_DUMP:". -/
def crashDumpPrefix : List UInt8 := [95, 95, 67, 82, 65, 83, 72, 95, 68, 85, 77, 80, 58]

/-- The section, and where and what has been written to it so far. -/
structure Medium where
  flash : Mem
  written : List (Nat × List UInt8)

/-- The static variables. `buffer` is the first `offset` bytes of
`crash_data_buffer.buffer`, which is `NULL` unless it is `allocated`. -/
structure Dump where
  allocated : Bool
  buffer : List UInt8
  cur_dump_seqnum : UInt32
  flash_offs : Nat
  is_init : Bool
  medium : Medium

/-! ## Initialization -/

/-- `sizeof(CRASH_DUMP_HEADER_T)`. -/
abbrev headerLen : Nat := 16

/-- The `seqnum` of a header, if `magic` and `version` are right. -/
def headerSeqnum (h : List UInt8) : Option UInt32 :=
  if ofLe (h.take 4) = crashDumpMagicCode ∧ ofLe ((h.drop 4).take 4) = crashDumpVersion then
    some (UInt32.ofNat (ofLe ((h.drop 8).take 4)))
  else none

/-- The variables of the loop of `_crash_dump_get_seqnum`. -/
structure Scan where
  max_dump_seqnum : UInt32
  max_sector_seqnum : Nat
  is_existed : Bool

def scanHeader (flash : Mem) (r : Scan) (i : Nat) : Scan :=
  match headerSeqnum (read flash (i * bufferLen) headerLen) with
  | none => r
  | some seqnum => if seqnum > r.max_dump_seqnum then ⟨seqnum, i, true⟩ else { r with is_existed := true }

/-- `_crash_dump_get_seqnum`. -/
def crashDumpGetSeqnum (flash_len : Nat) (flash : Mem) : UInt32 × Nat :=
  let count := flash_len / bufferLen
  let r := (List.range count).foldl (scanHeader flash) ⟨0, 0, false⟩
  if r.is_existed then
    (r.max_dump_seqnum + 1, if r.max_sector_seqnum + 1 ≥ count then 0 else r.max_sector_seqnum + 1)
  else (0, 0)

/-- `crash_dump_init` after a start of the system. -/
def crashDumpInit (flash_len : Nat) (medium : Medium) : Dump where
  allocated := false
  buffer := []
  cur_dump_seqnum := (crashDumpGetSeqnum flash_len medium.flash).1
  flash_offs := (crashDumpGetSeqnum flash_len medium.flash).2 * bufferLen
  is_init := true
  medium := medium

/-- `crash_dump_init_buffer`. -/
def crashDumpInitBuffer (s : Dump) : Dump := { s with allocated := true, buffer := [] }

/-! ## Output -/

/-- `CRASH_LOG_ALIGN`. -/
def crashLogAlign (x a : Nat) : Nat := (x + a - 1) / a * a

/-- `crash_dump_write`: the sector is erased, then the bytes are written unless
there are none. -/
def crashDumpWrite (offs : Nat) (bytes : List UInt8) (m : Medium) : Medium :=
  if crashLogAlign offs sectorSize ≠ offs then m
  else
    let m := { m with flash := erase m.flash offs sectorSize }
    if bytes.length = 0 then m
    else ⟨program m.flash offs bytes.length (bufferOf bytes), m.written ++ [(offs, bytes)]⟩

/-- `log_header`. -/
def header (seqnum : UInt32) : List UInt8 :=
  leBytes 4 crashDumpMagicCode ++ leBytes 4 crashDumpVersion ++ leBytes 4 seqnum.toNat ++ [0, 0, 0, 10]

/-- The header of an empty buffer. -/
def beginBuffer (s : Dump) : Dump :=
  if s.buffer.length = 0 then { s with buffer := header s.cur_dump_seqnum, cur_dump_seqnum := s.cur_dump_seqnum + 1 } else s

/-- A full buffer is written, and emptied. -/
def writeBuffer (flash_len : Nat) (s : Dump) : Dump :=
  { s with
    medium := crashDumpWrite s.flash_offs s.buffer s.medium
    flash_offs := if s.flash_offs + s.buffer.length ≥ flash_len then 0 else s.flash_offs + s.buffer.length
    buffer := [] }

/-- The loop of `_crash_dump_output` over the bytes that remain. -/
def outputLoop (flash_len : Nat) : Nat → List UInt8 → Dump → Option Dump
  | 0, _, _ => none
  | fuel + 1, buf, s =>
    let s := beginBuffer s
    let uint_len := if (s.buffer.length + buf.length) % UInt32.size > sectorSize then sectorSize - s.buffer.length
      else buf.length
    -- `memcpy` to `NULL` or behind the end of the buffer
    if s.allocated = false ∨ s.buffer.length + uint_len > bufferLen then none
    else
      let s := { s with buffer := s.buffer ++ buf.take uint_len }
      let s := if s.buffer.length = sectorSize then writeBuffer flash_len s else s
      if buf.drop uint_len = [] then some s else outputLoop flash_len fuel (buf.drop uint_len) s

/-- A call of the output handler: `buf_len` bytes, and what lies behind them in the memory. -/
structure Output where
  buf : List UInt8
  behind : List UInt8

/-- Whether `strstr` finds `CRASH_DUMP_PREFIX`: it looks up to the next NUL byte. -/
def Output.own (o : Output) : Prop := crashDumpPrefix <:+: (o.buf ++ o.behind).takeWhile (· ≠ 0)

instance (o : Output) : Decidable o.own := inferInstanceAs (Decidable (_ <:+: _))

/-- `_crash_dump_output`. -/
def crashDumpOutput (flash_len : Nat) (o : Output) (s : Dump) : Option Dump :=
  if !s.is_init then some s
  else if o.own then some s
  else outputLoop flash_len (o.buf.length + 1) o.buf s

/-! ## Crashes -/

/-- The states of `HAL_TRACE_STATE_T` that a crash goes through. -/
inductive TraceState where
  | crashAssertStart
  | crashFaultStart
  | crashEnd
  deriving DecidableEq

/-- `_crash_dump_notify`. -/
def crashDumpNotify (state : TraceState) (s : Dump) : Dump :=
  if !s.is_init then s
  else if state = .crashEnd then { s with medium := crashDumpWrite s.flash_offs s.buffer s.medium }
  else s

/-- `crash_dump_notify_handler`. -/
def crashDumpNotifyHandler (state : TraceState) (s : Dump) : Dump :=
  let s := if state = .crashAssertStart ∨ state = .crashFaultStart then crashDumpInitBuffer s else s
  crashDumpNotify state s

structure Crash where
  is_fault : Bool
  outputs : List Output

def crash (flash_len : Nat) (c : Crash) (s : Dump) : Option Dump := do
  let s := crashDumpNotifyHandler (if c.is_fault then .crashFaultStart else .crashAssertStart) s
  let s ← c.outputs.foldlM (fun s o => crashDumpOutput flash_len o s) s
  some (crashDumpNotifyHandler .crashEnd s)

/-- A boot, and the crash that ends it. -/
def boot (flash_len : Nat) (c : Crash) (m : Medium) : Option Medium :=
  (crash flash_len c (crashDumpInit flash_len m)).map (·.medium)

def boots (flash_len : Nat) (crashes : List Crash) (m : Medium) : Option Medium :=
  crashes.foldlM (fun m c => boot flash_len c m) m

end CrashDump
