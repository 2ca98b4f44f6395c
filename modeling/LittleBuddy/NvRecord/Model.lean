import LittleBuddy.Norflash.Runs
/-!
# The extended NV record

The functions of `services/nv_section/userdata_section/nvrecord_extension.c`:
the record in RAM, its main and backup sector, the boot, and the asynchronous
and synchronous flush.

A flush is a sequence of small steps: one for each section of code that runs
with interrupts disabled, and one for each access to `nv_flsh_state` outside of
them. Between two steps anything else may happen. `none` stands for a failed
`ASSERT` or a call that does not return.
-/
open NorMem Norflash

namespace NvRecord

/-! ## Memory -/

/-- `crc_table[n]`, as `make_crc_table` computes it in `utils/crc32/crc32.c`. -/
def crcTable (n : UInt32) : UInt32 :=
  (List.range 8).foldl (fun (c : UInt32) _ => if c &&& 1 = 1 then (0xedb88320 : UInt32) ^^^ (c >>> 1) else c >>> 1) n

/-- `crc32(crc, buf, len)`. -/
def crc32 (crc : UInt32) (buf : List UInt8) : UInt32 :=
  buf.foldl (fun c b => crcTable ((c ^^^ b.toUInt32) &&& 0xff) ^^^ (c >>> 8)) (crc ^^^ 0xffffffff) ^^^ 0xffffffff

/-- The `len` bytes of `m` from `a` on. -/
def bytes (m : Nat → UInt8) (a len : Nat) : List UInt8 := (List.range len).map fun j => m (a + j)

/-- A little-endian 32-bit and 16-bit field. -/
def getU32 (m : Nat → UInt8) (a : Nat) : Nat :=
  (m a).toNat + 2 ^ 8 * (m (a + 1)).toNat + 2 ^ 16 * (m (a + 2)).toNat + 2 ^ 24 * (m (a + 3)).toNat

def getU16 (m : Nat → UInt8) (a : Nat) : Nat := (m a).toNat + 2 ^ 8 * (m (a + 1)).toNat

def putU32 (m : Nat → UInt8) (a v : Nat) : Nat → UInt8 :=
  memcpy m a (fun j => UInt8.ofNat (v / 2 ^ (8 * j))) 4

def putU16 (m : Nat → UInt8) (a v : Nat) : Nat → UInt8 :=
  memcpy m a (fun j => UInt8.ofNat (v / 2 ^ (8 * j))) 2

/-! ## The record -/

/-- `NV_EXTENSION_SIZE`, `NV_EXTENSION_PAGE_SIZE`, `NV_EXTENSION_HEADER_SIZE`. -/
abbrev extensionSize : Nat := 4096
abbrev pageSize : Nat := 256
abbrev headerSize : Nat := 16

abbrev majorVersion : Nat := 3
abbrev minorVersion : Nat := 1
abbrev magicNumber : Nat := 0x4E455854

/-- `NORFLASH_API_MODULE_ID_USERDATA_EXT`. -/
abbrev nvModule : Nat := 9

/-- What the build and the linker script fix: the user data section, the
geometry of the flash, `NV_EXTENSION_VALID_LEN`, and the items that
`nv_record_set_default` fills in. -/
structure Config where
  userdata_start : Nat
  userdata_len : Nat
  block_size : Nat
  page_size : Nat
  valid_len : Nat
  default_items : Nat → UInt8
  aligned : userdata_start % extensionSize = 0
  /-- The check of `local_extension_data` at boot. -/
  fits : valid_len < extensionSize - headerSize

/-- `NV_STATE`. -/
inductive NvState where
  | idle | mainErasing | mainErased | mainWritting | mainWritten | mainDone
  | bakErasing | bakErased | bakWritting | bakWritten | bakDone
  deriving DecidableEq

/-- The two sectors. -/
inductive Copy where
  | main | bak
  deriving DecidableEq

instance : Fintype Copy := ⟨{.main, .bak}, fun c => by cases c <;> simp⟩

namespace Copy

/-- The states in which a copy is to be erased, and to be written. -/
def erases : Copy → NvState → Bool
  | main, st => st == .idle || st == .mainErasing
  | bak, st => st == .mainDone || st == .bakErasing

def writes : Copy → NvState → Bool
  | main, st => st == .mainErased || st == .mainWritting
  | bak, st => st == .bakErased || st == .bakWritting

def erased : Copy → NvState
  | main => .mainErased
  | bak => .bakErased

def done : Copy → NvState
  | main => .mainDone
  | bak => .bakDone

end Copy

/-- How far a flush has come. The functions `nv_record_extension_flush`,
`_flush_main` and `_flush_bak` call each other; `is_async` is their argument. -/
inductive Pc where
  /-- The end of `nv_record_extension_init`. -/
  | initEnd
  /-- The three tests in the loop of `nv_record_extension_flush`. -/
  | start (is_async : Bool)
  | selMain (is_async : Bool)
  | selBak (is_async : Bool)
  /-- An asynchronous step. -/
  | asyncMain
  | asyncBak
  /-- A synchronous flush of one copy. -/
  | ifErase (c : Copy)
  | erase (c : Copy)
  | eraseFlush (c : Copy)
  | eraseFree (c : Copy)
  | setErased (c : Copy)
  | ifWrite (c : Copy)
  | mainWrite
  | mainClear
  | mainSetWritten
  | bakStart
  | bakStartSize
  | bakPage
  | bakAdvance
  | bakIfWritten
  | writeFlush (c : Copy)
  | writeFree (c : Copy)
  | drain (c : Copy)
  | drainCheck (c : Copy)
  | setDone (c : Copy)
  /-- The test for `NV_STATE_BAK_DONE` at the end of `_flush_bak`. -/
  | bakEnd (is_async : Bool)
  deriving DecidableEq

/-- The flash queue, the record in RAM (`nvrecord_extension_p`), `nv_flsh_state`,
and the flushes under way. `awaiting` is a ghost: the record has changed since
the last `nv_record_extension_update`. -/
structure NvSys (W : Nat) where
  dev : Sys W
  ram : Nat → UInt8
  is_update : Bool
  state : NvState
  written_size : Nat
  flushes : List Pc
  awaiting : Bool

variable {W : Nat}

/-- Where `nv_record_extension_flush` calls `_flush_main`, and `_flush_bak`. -/
def NvSys.callsMain (s : NvSys W) : Bool :=
  (s.state == .idle && s.is_update) || s.state == .mainErasing || s.state == .mainErased ||
    s.state == .mainWritting || s.state == .mainWritten

def NvSys.callsBak (s : NvSys W) : Bool :=
  s.state == .mainDone || s.state == .bakErasing || s.state == .bakErased || s.state == .bakWritting ||
    s.state == .bakWritten || s.state == .bakDone

namespace Config
variable (cfg : Config)

/-- `_user_data_main_start` and `_user_data_bak_start`. -/
def addr : Copy → Nat
  | .main => cfg.userdata_start
  | .bak => cfg.userdata_start + extensionSize

/-- `nv_record_data_is_valid` of the record at `a`; `nv_record_items_is_valid` is always true. -/
def nvRecordDataIsValid (m : Nat → UInt8) (a : Nat) : Bool :=
  getU16 m (a + 4) == majorVersion && getU32 m a == magicNumber &&
    decide (getU32 m (a + 8) ≤ extensionSize - headerSize) &&
    (crc32 0 (bytes m (a + headerSize) (getU32 m (a + 8)))).toNat == getU32 m (a + 12) &&
    decide (getU32 m (a + 8) ≤ cfg.valid_len)

/-- The items of the record at `a`, its first `NV_EXTENSION_VALID_LEN` bytes behind the header. -/
def items (m : Nat → UInt8) (a : Nat) : List UInt8 := bytes m (a + headerSize) cfg.valid_len

/-- Sets `header.crc32` of the record in RAM. -/
def setCrc (ram : Nat → UInt8) : Nat → UInt8 := putU32 ram 12 (crc32 0 (cfg.items ram 0)).toNat

/-- `_nv_record_extension_init`. -/
def registration : Registration where
  mod_id := nvModule
  dev_id := 0
  mod_base_addr := cfg.userdata_start
  mod_len := cfg.userdata_len
  mod_block_len := cfg.block_size
  mod_sector_len := sectorSize
  mod_page_len := cfg.page_size
  buffer_len := extensionSize * 2
  cb_func := true

/-- `local_extension_data` as it is initialised, with the header's constants. -/
def localExtensionData (ram : Nat → UInt8) : Nat → UInt8 :=
  putU32 (putU32 (putU16 (putU16 (putU32 ram 0 magicNumber) 4 majorVersion) 6 minorVersion) 8 cfg.valid_len) 12 0

/-- `nv_record_set_default`. -/
def nvRecordSetDefault (ram : Nat → UInt8) : Nat → UInt8 :=
  cfg.setCrc (cfg.localExtensionData (memcpy ram headerSize cfg.default_items cfg.valid_len))

/-- `nv_record_extension_init` after power on, on the content of the flash. The
record is read from the flash itself, not through the queue. -/
def nvRecordExtensionInit (flash : Mem) (ram : Nat → UInt8) : Option (NvSys W) :=
  let (r, api) := norflashApiRegister cfg.registration (initial W flash).api
  if r = .ok then
    let dev : Sys W := ⟨api, flash⟩
    let ram := cfg.localExtensionData ram
    let main_is_valid := cfg.nvRecordDataIsValid flash (cfg.addr .main)
    let bak_is_valid := cfg.nvRecordDataIsValid flash (cfg.addr .bak)
    let load (c : Copy) := cfg.setCrc (memcpy ram headerSize (fun j => flash (cfg.addr c + headerSize + j)) cfg.valid_len)
    match main_is_valid, bak_is_valid with
    | true, true => some ⟨dev, load .main, false, .idle, 0, [.initEnd], false⟩
    | true, false => some ⟨dev, load .main, true, .mainDone, 0, [.initEnd], false⟩
    | false, true => some ⟨dev, load .bak, true, .idle, 0, [.initEnd], false⟩
    | false, false => some ⟨dev, cfg.nvRecordSetDefault ram, true, .idle, 0, [.initEnd], false⟩
  else none

/-! ## One step of a flush -/

/-- The call of `norflash_api_erase` for a copy. -/
def eraseCopy (c : Copy) (s : NvSys W) : Option (Ret × NvSys W) := do
  let (ret, dev) ← s.dev.erase nvModule (cfg.addr c) extensionSize
  some (ret, { s with dev })

/-- Writes the record in RAM to the main sector, with its CRC. -/
def writeMain (s : NvSys W) : Option (Ret × NvSys W) := do
  let ram := cfg.setCrc s.ram
  if cfg.nvRecordDataIsValid ram 0 then
    let (ret, dev) ← s.dev.write nvModule (cfg.addr .main) ram extensionSize
    some (ret, { s with dev, ram })
  else none

/-- Copies one page of the main sector to the backup sector. -/
def copyPage (s : NvSys W) : Option (Ret × NvSys W) := do
  let (ret, burn_buf) ← norflashApiRead nvModule (cfg.addr .main + s.written_size) pageSize s.dev.api
  if ret = .ok then
    let (ret, dev) ← s.dev.write nvModule (cfg.addr .bak + s.written_size) (bufferOf burn_buf) pageSize
    some (ret, { s with dev })
  else none

def flushNow (env : FlushEnv) (s : NvSys W) : Option (NvSys W) := do
  let dev ← s.dev.flush env
  some { s with dev }

/-- Waits for the module's operations, or says that there are none left. -/
def drained (s : NvSys W) : Option Bool := do
  let count ← norflashApiGetUsedBufferCount ⟨nvModule, by decide⟩ .all s.dev.api
  some (count = 0)

/-- What follows a queueing call: `ok` when it was accepted, `full` when no
buffer was free. -/
def onRet {β : Type} (call : Option (Ret × NvSys W)) (ok full : NvSys W → Option β) : Option β := do
  let (ret, s) ← call
  match ret with
  | .ok => ok s
  | .bufferFull => full s
  | _ => none

/-- The section of `nv_record_extension_flush_main` with interrupts disabled. -/
def asyncMain (env : FlushEnv) (s : NvSys W) : Option (NvSys W) :=
  if Copy.erases .main s.state then
    onRet (cfg.eraseCopy .main { s with state := .mainErasing }) (fun s => some { s with state := .mainErased })
      (flushNow env)
  else if Copy.writes .main s.state then
    onRet (cfg.writeMain { s with state := .mainWritting })
      (fun s => some { s with is_update := false, state := .mainWritten }) (flushNow env)
  else do
    if ← drained s then some { s with state := .mainDone } else flushNow env s

/-- The copying loop of the asynchronous `nv_record_extension_flush_bak`. -/
def copyLoop (env : FlushEnv) : Nat → NvSys W → Option (NvSys W)
  | 0, _ => none
  | fuel + 1, s =>
    onRet (cfg.copyPage s)
      (fun s =>
        let s := { s with written_size := s.written_size + pageSize }
        if s.written_size = extensionSize then some { s with state := .bakWritten } else copyLoop env fuel s)
      (flushNow env)

/-- The section of `nv_record_extension_flush_bak` with interrupts disabled. -/
def asyncBak (env : FlushEnv) (s : NvSys W) : Option (NvSys W) :=
  if Copy.erases .bak s.state then
    onRet (cfg.eraseCopy .bak { s with state := .bakErasing }) (fun s => some { s with state := .bakErased })
      (flushNow env)
  else if Copy.writes .bak s.state then
    cfg.copyLoop env (extensionSize / pageSize) { s with
      written_size := if s.state = .bakErased then 0 else s.written_size
      state := .bakWritting }
  else do
    if ← drained s then some { s with state := .bakDone } else flushNow env s

/-- One step of a flush: where it goes on, or `none` when it has returned. -/
def stepFlush (env : FlushEnv) : Pc → NvSys W → Option (Option Pc × NvSys W)
  | .initEnd, s => some (if s.is_update then some (.start false) else none, s)
  | .start a, s => some (if s.state == .idle && !s.is_update then none else some (.selMain a), s)
  | .selMain a, s => some (some (if s.callsMain then (if a then .asyncMain else .ifErase .main) else .selBak a), s)
  | .selBak a, s =>
    some (if s.callsBak then some (if a then .asyncBak else .ifErase .bak)
      else if a then none else some (.start false), s)
  | .asyncMain, s => (cfg.asyncMain env s).map (none, ·)
  | .asyncBak, s => (cfg.asyncBak env s).map (some (.bakEnd true), ·)
  | .ifErase c, s => some (some (if c.erases s.state then .erase c else .ifWrite c), s)
  | .erase c, s =>
    onRet (cfg.eraseCopy c s) (fun s => some (some (.setErased c), s)) (fun s => some (some (.eraseFlush c), s))
  | .eraseFlush c, s => (flushNow env s).map (some (.eraseFree c), ·)
  | .eraseFree c, s => do
    let n ← norflashApiGetFreeBufferCount .erasing s.dev.api
    some (some (if n = 0 then .eraseFlush c else .erase c), s)
  | .setErased c, s => some (some (.ifWrite c), { s with state := c.erased })
  | .ifWrite c, s =>
    some (some (if c.writes s.state then (match c with | .main => .mainWrite | .bak => .bakStart) else .drain c), s)
  | .mainWrite, s =>
    onRet (cfg.writeMain s) (fun s => some (some .mainClear, s)) (fun s => some (some (.writeFlush .main), s))
  | .mainClear, s => some (some .mainSetWritten, { s with is_update := false })
  | .mainSetWritten, s => some (some (.drain .main), { s with state := .mainWritten })
  | .bakStart, s => some (some .bakStartSize, { s with state := .bakWritting })
  | .bakStartSize, s => some (some .bakPage, { s with written_size := 0 })
  | .bakPage, s =>
    onRet (cfg.copyPage s) (fun s => some (some .bakAdvance, s)) (fun s => some (some (.writeFlush .bak), s))
  | .bakAdvance, s => some (some .bakIfWritten, { s with written_size := s.written_size + pageSize })
  | .bakIfWritten, s =>
    if s.written_size = extensionSize then some (some (.drain .bak), { s with state := .bakWritten })
    else some (some .bakPage, s)
  | .writeFlush c, s => (flushNow env s).map (some (.writeFree c), ·)
  | .writeFree c, s => do
    let n ← norflashApiGetFreeBufferCount .writting s.dev.api
    some (some (if n = 0 then .writeFlush c else match c with | .main => .mainWrite | .bak => .bakPage), s)
  | .drain c, s => (flushNow env s).map (some (.drainCheck c), ·)
  | .drainCheck c, s => do
    if ← drained s then some (some (.setDone c), s) else some (some (.drain c), s)
  | .setDone c, s =>
    some (some (match c with | .main => .selBak false | .bak => .bakEnd false), { s with state := c.done })
  | .bakEnd a, s =>
    some (if a then none else some (.start false), if s.state = .bakDone then { s with state := .idle } else s)

end Config

/-! ## Runs -/

inductive Event where
  /-- The record in RAM is changed behind its header. -/
  | mutate (items : Nat → UInt8)
  /-- `nv_record_extension_update`. -/
  | update
  /-- `nv_record_extension_flush` is called. -/
  | call (is_async : Bool)
  /-- The `k`-th flush under way goes on. -/
  | run (k : Nat) (env : FlushEnv)
  /-- Another user of the flash queue. -/
  | other (e : Norflash.Event)
  /-- The power is cut, and the device boots. -/
  | boot (ram : Nat → UInt8)

/-- The flushes after the `k`-th has made a step. -/
def advance (l : List Pc) (k : Nat) (next : Option Pc) : List Pc :=
  match next with
  | some pc => l.set k pc
  | none => l.eraseIdx k

def Config.step (cfg : Config) : Event → NvSys W → Option (NvSys W)
  | .mutate items, s => some { s with ram := fun j => if j < headerSize then s.ram j else items j, awaiting := true }
  | .update, s => some { s with is_update := true, awaiting := false }
  | .call is_async, s => some { s with flushes := s.flushes ++ [.start is_async] }
  | .run k env, s => do
    let pc ← s.flushes[k]?
    let (next, s') ← cfg.stepFlush env pc s
    some { s' with flushes := advance s.flushes k next }
  | .other e, s => do
    let dev ← Norflash.step e s.dev
    some { s with dev }
  | .boot ram, s => cfg.nvRecordExtensionInit s.dev.api.hal.flash ram

/-- A flush that is in neither `_flush_main` nor `_flush_bak`. -/
def Pc.outside : Pc → Bool
  | .initEnd | .start _ | .selMain _ | .selBak _ => true
  | _ => false

/-- The next step enters `_flush_main` or `_flush_bak`. -/
def Pc.enters (s : NvSys W) : Pc → Bool
  | .selMain _ => s.callsMain
  | .selBak _ => s.callsBak
  | _ => false

/-- Another module, off the sectors of the record. -/
def Config.Foreign (cfg : Config) : Norflash.Event → Prop
  | .erase mod_id a _ => mod_id ≠ nvModule ∧ ∀ c, a ≠ cfg.addr c
  | .write mod_id a _ => mod_id ≠ nvModule ∧ ∀ c, a / sectorSize * sectorSize ≠ cfg.addr c
  | _ => True

/-- No flush enters `_flush_main` or `_flush_bak` while another is in one of
them: in particular, a flush that is alone. The other modules keep to their own
sectors. -/
def Config.InTurn (cfg : Config) : Event → NvSys W → Prop
  | .run k _, s => ∀ pc ∈ s.flushes[k]?, pc.enters s = true → ∀ pc' ∈ s.flushes.eraseIdx k, pc'.outside = true
  | .other e, s => cfg.Foreign e ∧ QueueCond e s.dev
  | _, _ => True

end NvRecord
