import LittleBuddy.Lib.Bytes
import LittleBuddy.Lib.NorMem
/-!
# The log dump

`services/nv_section/log_section/log_section.c` collects the log in four buffers
of a sector each and writes them, one after the other, round and round into the
log area of the flash. A buffer begins with a header that numbers its sector.

The norflash layer is not part of this model: a call of it is accepted or finds
no room, as `answers` says, and what is accepted is carried out in the order of
the calls. `flash` is the log area, addressed from `log_dump_flash_start_addr`
on, once all accepted calls are carried out.
-/
open Bytes NorMem

namespace LogDump

/-- `LOG_DUMP_SECTOR_SIZE` and `LOG_DUMP_SECTOR_BUFFER_COUNT`. -/
abbrev sectorSize : Nat := 0x1000
abbrev sectorBufferCount : Nat := 4

def dumpLogMagic : Nat := 0xd5151001
def dumpLogVersion : Nat := 0x00010001

inductive BufferState where
  | free
  | writting
  | written
  deriving DecidableEq

/-- `DATA_BUFFER`: the first `offset` bytes of `buffer`, which are all that is ever written. -/
structure DataBuffer where
  state : BufferState
  buffer : List UInt8

def DataBuffer.offset (b : DataBuffer) : Nat := b.buffer.length

/-- `LOG_DUMP_FLUSH_STATE`; nothing sets the state `WRITTEN`. -/
inductive FlashState where
  | idle
  | erased
  | writting
  deriving DecidableEq

/-- The static variables. -/
structure Log where
  data_buffer_list : Nat → DataBuffer
  w_seqnum : Nat
  f_seqnum : Nat
  flash_offs : Nat
  cur_dump_seqnum : UInt32
  is_immediately : Bool
  is_bootup : Bool
  flash_state : FlashState
  flash : Mem

/-- The index of the next buffer. -/
def nextSeqnum (i : Nat) : Nat := if i + 1 = sectorBufferCount then 0 else i + 1

/-- `log_dump_flash_offs` behind `len` bytes. -/
def nextOffs (flash_len offs len : Nat) : Nat := if offs + len ≥ flash_len then 0 else offs + len

/-! ## Flushing -/

/-- Tries again, with `norflash_api_flush` in between, until the call is accepted. -/
def retry : List Bool → Option (List Bool)
  | [] => none
  | true :: answers => some answers
  | false :: answers => retry answers

/-- The loops of `_flash_api_erase` and `_flash_api_write`: whether the call was
accepted, and the answers that are left. -/
def apiCall (is_async : Bool) (answers : List Bool) : Option (Bool × List Bool) :=
  if is_async then
    match answers with
    | [] => none
    | accepted :: answers => some (accepted, answers)
  else (retry answers).map fun answers => (true, answers)

/-- `_log_dump_flush`. -/
def flushStep (flash_len : Nat) (buff_state : BufferState → Bool) (is_async : Bool) (answers : List Bool) (s : Log) :
    Option (List Bool × Log) :=
  if s.flash_state = .idle ∧ s.flash_offs % sectorSize = 0 then
    match apiCall (is_async && !s.is_immediately) answers with
    | none => none
    | some (false, answers) => some (answers, s)
    | some (true, answers) =>
      some (answers, { s with flash := erase s.flash s.flash_offs sectorSize, flash_state := .erased })
  else if s.flash_state = .erased ∨ s.flash_state = .writting then
    let data_buff := s.data_buffer_list s.f_seqnum
    if buff_state data_buff.state = true ∧ data_buff.offset > 0 then
      match apiCall (is_async && !s.is_immediately) answers with
      | none => none
      | some (false, answers) => some (answers, { s with flash_state := .writting })
      | some (true, answers) =>
        some (answers, { s with
          data_buffer_list := Function.update s.data_buffer_list s.f_seqnum { data_buff with state := .free }
          f_seqnum := nextSeqnum s.f_seqnum
          flash_offs := nextOffs flash_len s.flash_offs data_buff.offset
          flash := program s.flash s.flash_offs data_buff.offset (bufferOf data_buff.buffer)
          flash_state := .idle })
    else some (answers, s)
  else some (answers, s)

/-- `log_dump_flush`. -/
def logDumpFlush (flash_len : Nat) (answers : List Bool) (s : Log) : Option Log :=
  (flushStep flash_len (· = .written) true answers s).map Prod.snd

def allFree (s : Log) : Bool := (List.range sectorBufferCount).all fun i => (s.data_buffer_list i).state = .free

/-- `_log_dump_flush_remain`, and at its end `_flash_api_flush`, which flushes
until no call is left to be carried out. -/
def flushRemain (flash_len : Nat) : Nat → List Bool → Log → Option Log
  | 0, _, _ => none
  | fuel + 1, answers, s =>
    if allFree s then (retry answers).map fun _ => s
    else (flushStep flash_len (· ≠ .free) false answers s).bind fun (answers, s) => flushRemain flash_len fuel answers s

/-- `log_dump_flush_all`. -/
def logDumpFlushAll (flash_len fuel : Nat) (answers : List Bool) (s : Log) : Option Log :=
  flushRemain flash_len fuel answers { s with is_immediately := true }

/-! ## Output -/

/-- `LOG_DUMP_HEADER`. -/
def header (seqnum : UInt32) (is_bootup : Bool) : List UInt8 :=
  leBytes 4 dumpLogMagic ++ leBytes 4 dumpLogVersion ++ leBytes 4 seqnum.toNat ++ [if is_bootup then 1 else 0, 0, 0, 10]

/-- The start of a turn of the loop: a buffer that is not being written is begun,
and gets its header. -/
def beginBuffer (s : Log) : Log :=
  let data_buff := s.data_buffer_list s.w_seqnum
  let data_buff := if data_buff.state = .free ∨ data_buff.state = .written then ⟨.writting, []⟩ else data_buff
  if data_buff.offset = 0 then
    { s with
      data_buffer_list := Function.update s.data_buffer_list s.w_seqnum
        { data_buff with buffer := header s.cur_dump_seqnum s.is_bootup }
      cur_dump_seqnum := s.cur_dump_seqnum + 1
      is_bootup := false }
  else { s with data_buffer_list := Function.update s.data_buffer_list s.w_seqnum data_buff }

/-- The bytes of this turn. -/
def putBytes (s : Log) (bytes : List UInt8) : Log :=
  let data_buff := s.data_buffer_list s.w_seqnum
  let buffer := data_buff.buffer ++ bytes
  let state := if buffer.length = sectorSize then .written else data_buff.state
  { s with data_buffer_list := Function.update s.data_buffer_list s.w_seqnum { state, buffer } }

/-- A full buffer: on to the next, which gives up the oldest buffer if there is
none free. `none` is the assertion. -/
def nextBuffer (s : Log) : Option Log :=
  let w_seqnum := nextSeqnum s.w_seqnum
  let f_seqnum := if w_seqnum = s.f_seqnum then nextSeqnum s.f_seqnum else s.f_seqnum
  if (s.data_buffer_list w_seqnum).state = .writting then none else some { s with w_seqnum, f_seqnum }

/-- The loop of `log_dump_output_handler` over the bytes that remain. -/
def outputLoop : Nat → List UInt8 → Log → Option Log
  | 0, _, _ => none
  | fuel + 1, buf, s =>
    let s := beginBuffer s
    let offset := (s.data_buffer_list s.w_seqnum).offset
    let write_len := if (offset + buf.length) % UInt32.size > sectorSize then sectorSize - offset else buf.length
    let s := putBytes s (buf.take write_len)
    let next := if (s.data_buffer_list s.w_seqnum).offset = sectorSize then nextBuffer s else some s
    next.bind fun s => if buf.drop write_len = [] then some s else outputLoop fuel (buf.drop write_len) s

/-- `log_dump_output_handler`; `own` says whether `strstr` finds `LOG_DUMP_PREFIX`. -/
def logDumpOutputHandler (own : Bool) (buf : List UInt8) (s : Log) : Option Log :=
  if own then some s else outputLoop (buf.length + 1) buf s

/-! ## Initialization -/

/-- The sequence number in the header of a sector, if it has one. -/
def readHeader (flash : Mem) (sector : Nat) : Option UInt32 :=
  if ofLe (read flash (sector * sectorSize) 4) = dumpLogMagic ∧
      ofLe (read flash (sector * sectorSize + 4) 4) = dumpLogVersion then
    some (UInt32.ofNat (ofLe (read flash (sector * sectorSize + 8) 4)))
  else none

/-- The variables of the loop of `_get_seqnum`. -/
structure Scan where
  max_dump_seqnum : UInt32
  max_sector_seqnum : Nat
  is_existed : Bool

def scanSector (flash : Mem) (r : Scan) (i : Nat) : Scan :=
  match readHeader flash i with
  | none => r
  | some seqnum => if seqnum > r.max_dump_seqnum then ⟨seqnum, i, true⟩ else { r with is_existed := true }

/-- `_get_seqnum`. -/
def getSeqnum (flash : Mem) (count : Nat) : UInt32 × Nat :=
  let r := (List.range count).foldl (scanSector flash) ⟨0, 0, false⟩
  if r.is_existed then
    (r.max_dump_seqnum + 1, if r.max_sector_seqnum + 1 ≥ count then 0 else r.max_sector_seqnum + 1)
  else (0, 0)

/-- `log_dump_init` after a start of the system. -/
def logDumpInit (flash_len : Nat) (flash : Mem) : Log where
  data_buffer_list _ := ⟨.free, []⟩
  w_seqnum := 0
  f_seqnum := 0
  flash_offs := (getSeqnum flash (flash_len / sectorSize)).2 * sectorSize
  cur_dump_seqnum := (getSeqnum flash (flash_len / sectorSize)).1
  is_immediately := false
  is_bootup := true
  flash_state := .idle
  flash := flash

end LogDump
