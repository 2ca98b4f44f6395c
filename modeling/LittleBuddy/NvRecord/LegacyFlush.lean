import LittleBuddy.NvRecord.Record
import LittleBuddy.Norflash.Owner
/-!
# The flush of the NV record

The functions of `services/nvrecord/nvrecord.c` that save the pool
`usrdata_ddblist_pool`: the check of a record, the boot, and the asynchronous and
the synchronous flush to the main and the backup sector.

A flush is a sequence of small steps, as in `nvrecord_extension.c`: one for each
section of code that runs with interrupts disabled, and one for each access to
`nv_record_config` outside of them. `none` stands for a failed `ASSERT`, an access
outside of the pool, or a call that does not return.
-/
open NorMem Norflash

namespace NvRecord.LegacyFlush

/-! ## The record -/

/-- `nvrecord_mem_pool_size`, which is `sizeof(usrdata_ddblist_pool)`, and `sizeof(burn_buf)`. -/
abbrev poolSize : Nat := 4096
abbrev chunkSize : Nat := 128

/-- `(nvrecord_struct_version << 16) | nvrecord_magic`. -/
abbrev verAndMagic : Nat := 8 * 2 ^ 16 + 0xcb91

/-- The offsets of the words of the header. -/
abbrev posVersionAndMagic : Nat := 0
abbrev posCrc : Nat := 4
abbrev posStartRamAddr : Nat := 8
abbrev posReserv2 : Nat := 12
abbrev posConfigAddr : Nat := 16
abbrev posHeapContents : Nat := 20

/-- `NORFLASH_API_MODULE_ID_USERDATA`. -/
abbrev userdataModule : ModId := 1

/-- What the build and the linker script fix: the user data section, the geometry
of the flash, and the address of `usrdata_ddblist_pool`. -/
structure Build where
  userdata_start : Nat
  userdata_len : Nat
  block_size : Nat
  page_size : Nat
  pool_addr : Nat
  aligned : userdata_start % poolSize = 0
  pool_lt : pool_addr < 2 ^ 32

namespace Build
variable (b : Build)

/-- `_user_data_main_start` and `_user_data_bak_start`. -/
def addr : Copy → Nat
  | .main => b.userdata_start
  | .bak => b.userdata_start + poolSize

/-! ## Validity -/

/-- The word at the address `p`, by the bytes of the pool. -/
def wordAt (pool : List UInt8) (p : Nat) : Option Nat :=
  if p ≠ 0 ∧ b.pool_addr ≤ p ∧ p + 4 ≤ b.pool_addr + poolSize then some (getU32 (bufferOf pool) (p - b.pool_addr)) else none

def strlen (pool : List UInt8) (p : Nat) : Option Nat :=
  if b.pool_addr ≤ p then (pool.drop (p - b.pool_addr)).findIdx? (· == 0) else none

/-- Whether the string at `p` is between `mem_start` and `mem_end`. -/
def textInMem (pool : List UInt8) (mem_start p : Nat) : Option Bool :=
  if mem_start ≤ p then do
    let len ← b.strlen pool p
    some (decide ((p + len) % 2 ^ 32 < (mem_start + (poolSize - posHeapContents)) % 2 ^ 32))
  else some false

/-- The entries of one section, from `sub_node` on. -/
def entriesValid (pool : List UInt8) (mem_start : Nat) : Nat → Nat → Option Bool
  | 0, _ => none
  | fuel + 1, sub_node =>
    if sub_node = 0 then some true
    else do
      let entry ← b.wordAt pool (sub_node + 4)
      let key ← b.wordAt pool entry
      let value ← b.wordAt pool (entry + 4)
      if key = 0 ∨ value = 0 then some false
      else if (← b.textInMem pool mem_start key) = false then some false
      else if (← b.textInMem pool mem_start value) = false then some false
      else entriesValid pool mem_start fuel (← b.wordAt pool sub_node)

/-- The sections, from `node` on. -/
def sectionsValid (pool : List UInt8) (mem_start : Nat) : Nat → Nat → Option Bool
  | 0, _ => none
  | fuel + 1, node =>
    if node = 0 then some true
    else do
      let sec ← b.wordAt pool (node + 4)
      let entries ← b.wordAt pool (sec + 4)
      if ← b.entriesValid pool mem_start poolSize (← b.wordAt pool entries) then
        sectionsValid pool mem_start fuel (← b.wordAt pool node)
      else some false

/-- `nv_record_list_is_valid`. -/
def nvRecordListIsValid (pool : List UInt8) : Option Bool :=
  if getU32 (bufferOf pool) posStartRamAddr = b.pool_addr then do
    let config := getU32 (bufferOf pool) posConfigAddr
    b.sectionsValid pool config poolSize (← b.wordAt pool (← b.wordAt pool config))
  else some false

/-- `nv_record_data_is_valid`. -/
def nvRecordDataIsValid (pool : List UInt8) : Bool :=
  getU32 (bufferOf pool) posVersionAndMagic == verAndMagic &&
    getU32 (bufferOf pool) posCrc == (crc32 0 (pool.drop posHeapContents)).toNat

/-- Whether `nv_record_open` takes the sector at `a` for valid. -/
def recordIsValid (m : Nat → UInt8) (a : Nat) : Option Bool :=
  let pool := bytes m a poolSize
  if nvRecordDataIsValid pool && getU32 (bufferOf pool) posStartRamAddr == b.pool_addr then b.nvRecordListIsValid pool
  else some false

/-- The header of the pool as it is written to the main sector. -/
def fillHeader (pool : Nat → UInt8) (config : Nat) : Nat → UInt8 :=
  let crc := crc32 0 (bytes pool posHeapContents (poolSize - posHeapContents))
  putU32 (putU32 (putU32 (putU32 (putU32 pool posVersionAndMagic verAndMagic) posCrc crc.toNat)
    posStartRamAddr b.pool_addr) posReserv2 0) posConfigAddr config

end Build

/-! ## The state -/

/-- How far a flush has come: `nv_record_flash_flush_int` and what it calls;
`is_async` is their argument. -/
inductive Pc where
  /-- The two tests of `nv_record_flash_flush_int`. -/
  | start (is_async : Bool)
  | bak (is_async : Bool)
  /-- The beginning of `nv_record_flash_flush_main`. -/
  | main (is_async : Bool)
  /-- An asynchronous step. -/
  | asyncMain
  | asyncBak
  /-- A synchronous flush of one copy. -/
  | ifErase (c : Copy)
  | erase (c : Copy)
  | eraseFlush (c : Copy)
  | eraseFree (c : Copy)
  | setErased (c : Copy)
  | ifWrite (c : Copy)
  | mainWrite
  | mainClear
  | mainSetWritten
  | bakStart
  | bakStartSize
  | bakChunk
  | bakAdvance
  | bakIfWritten
  | bakFull
  | bakSetWritten
  | writeFlush (c : Copy)
  | writeFree (c : Copy)
  | drain (c : Copy)
  | drainCheck (c : Copy)
  | setDone (c : Copy)
  /-- The test for `NV_STATE_BAK_DONE` at the end of `nv_record_flash_flush_bak`. -/
  | bakEnd (is_async : Bool)
  deriving DecidableEq

def Pc.isAsync : Pc → Bool
  | start a | bak a | main a | bakEnd a => a
  | asyncMain | asyncBak => true
  | _ => false

/-- The flash queue, `usrdata_ddblist_pool`, `nv_record_config`, and the flushes
under way. Two ghosts: `awaiting` says that the pool has changed since the last
`nv_record_update_runtime_userdata`, `returned` that the last step was the end of a
synchronous flush. -/
structure Nv (W : Nat) where
  dev : Sys W
  pool : Nat → UInt8
  config : Nat
  is_update : Bool
  state : NvState
  written_size : Nat
  flushes : List Pc
  awaiting : Bool
  returned : Bool

variable {W : Nat}

/-- Where `nv_record_flash_flush_int` calls `nv_record_flash_flush_main`, and `_bak`. -/
def Nv.callsMain (s : Nv W) : Bool :=
  (s.state == .idle && s.is_update) || s.state == .mainErasing || s.state == .mainErased ||
    s.state == .mainWritting || s.state == .mainWritten

def Nv.callsBak (s : Nv W) : Bool :=
  s.state == .mainDone || s.state == .bakErasing || s.state == .bakErased || s.state == .bakWritting ||
    s.state == .bakWritten || s.state == .bakDone

namespace Build
variable (b : Build)

/-- `nv_record_init`. -/
def registration : Registration where
  mod_id := userdataModule.val
  dev_id := 0
  mod_base_addr := b.userdata_start
  mod_len := b.userdata_len
  mod_block_len := b.block_size
  mod_sector_len := sectorSize
  mod_page_len := b.page_size
  buffer_len := poolSize * 2
  cb_func := true

/-- `nv_record_init` and `nv_record_open` after power on. The sectors are read from the flash itself,
not through the queue; `fresh` and `config` are what `nv_record_config_rebuild` makes of the pool. -/
def nvRecordOpen (flash : Mem) (fresh : Nat → UInt8) (config : Nat) : Option (Nv W) := do
  let (r, api) := norflashApiRegister b.registration (initial W flash).api
  if r = .ok then
    let main_is_valid ← b.recordIsValid flash (b.addr .main)
    let bak_is_valid ← b.recordIsValid flash (b.addr .bak)
    let load (c : Copy) := fun j => flash (b.addr c + j)
    let start (pool : Nat → UInt8) (config : Nat) (is_update : Bool) (state : NvState) (flushes : List Pc) : Option (Nv W) :=
      some ⟨⟨api, flash⟩, pool, config, is_update, state, 0, flushes, false, false⟩
    match main_is_valid, bak_is_valid with
    | true, true => start (load .main) (getU32 (load .main) posConfigAddr) false .idle []
    | true, false => start (load .main) (getU32 (load .main) posConfigAddr) true .mainDone [.start false]
    | false, true => start (load .bak) (getU32 (load .bak) posConfigAddr) true .idle [.start false]
    | false, false =>
      if config = 0 then none else start (putU32 fresh posVersionAndMagic verAndMagic) config true .idle []
  else none

/-! ## One step of a flush -/

/-- The call of `norflash_api_erase` for a copy. -/
def eraseCopy (c : Copy) (s : Nv W) : Option (Ret × Nv W) := do
  let (ret, dev) ← s.dev.erase userdataModule.val (b.addr c) poolSize
  some (ret, { s with dev })

/-- Fills in the header of the pool and writes the pool to the main sector. -/
def writeMain (s : Nv W) : Option (Ret × Nv W) := do
  let pool := b.fillHeader s.pool s.config
  if ← b.nvRecordListIsValid (bytes pool 0 poolSize) then
    let (ret, dev) ← s.dev.write userdataModule.val (b.addr .main) pool poolSize
    some (ret, { s with dev, pool })
  else none

/-- Copies 128 bytes of the main sector to the backup sector. -/
def copyChunk (s : Nv W) : Option (Ret × Nv W) := do
  let (ret, burn_buf) ← norflashApiRead userdataModule.val (b.addr .main + s.written_size) chunkSize s.dev.api
  if ret = .ok then
    let (ret, dev) ← s.dev.write userdataModule.val (b.addr .bak + s.written_size) (bufferOf burn_buf) chunkSize
    some (ret, { s with dev })
  else none

def flushNow (env : FlushEnv) (s : Nv W) : Option (Nv W) := do
  let dev ← s.dev.flush env
  some { s with dev }

/-- Whether the module has no operation left. -/
def drained (s : Nv W) : Option Bool := do
  let count ← norflashApiGetUsedBufferCount userdataModule .all s.dev.api
  some (count = 0)

/-- What follows a queueing call: `ok` when it was accepted, `full` when no
buffer was free. -/
def onRet {β : Type} (call : Option (Ret × Nv W)) (ok full : Nv W → Option β) : Option β := do
  let (ret, s) ← call
  match ret with
  | .ok => ok s
  | .bufferFull => full s
  | _ => none

/-- The section of `nv_record_flash_flush_main` with interrupts disabled. -/
def asyncMain (env : FlushEnv) (s : Nv W) : Option (Nv W) :=
  if Copy.erases .main s.state then
    onRet (b.eraseCopy .main { s with state := .mainErasing }) (fun s => some { s with state := .mainErased })
      (flushNow env)
  else if Copy.writes .main s.state then
    onRet (b.writeMain { s with state := .mainWritting })
      (fun s => some { s with is_update := false, state := .mainWritten }) (flushNow env)
  else do
    if ← drained s then some { s with state := .mainDone } else flushNow env s

/-- The copying loop of the asynchronous `nv_record_flash_flush_bak`. -/
def copyLoop (env : FlushEnv) : Nat → Nv W → Option (Nv W)
  | 0, _ => none
  | fuel + 1, s =>
    onRet (b.copyChunk s)
      (fun s =>
        let s := { s with written_size := s.written_size + chunkSize }
        if s.written_size = poolSize then some { s with state := .bakWritten } else copyLoop env fuel s)
      (flushNow env)

/-- The section of `nv_record_flash_flush_bak` with interrupts disabled. -/
def asyncBak (env : FlushEnv) (s : Nv W) : Option (Nv W) :=
  if Copy.erases .bak s.state then
    onRet (b.eraseCopy .bak { s with state := .bakErasing }) (fun s => some { s with state := .bakErased })
      (flushNow env)
  else if Copy.writes .bak s.state then
    b.copyLoop env (poolSize / chunkSize) { s with
      written_size := if s.state = .bakErased then 0 else s.written_size
      state := .bakWritting }
  else do
    if ← drained s then some { s with state := .bakDone } else flushNow env s

/-- One step of a flush: where it goes on, or `none` when it has returned. A synchronous
flush returns success whenever it returns. -/
def stepFlush (env : FlushEnv) : Pc → Nv W → Option (Option Pc × Nv W)
  | .start a, s => some (some (if s.callsMain then .main a else .bak a), s)
  | .main a, s =>
    if s.config = 0 then some (if a then none else some (.bak false), s)
    else if getU32 s.pool posVersionAndMagic = verAndMagic then some (some (if a then .asyncMain else .ifErase .main), s)
    else none
  | .bak a, s => some (if s.callsBak then some (if a then .asyncBak else .ifErase .bak) else none, s)
  | .asyncMain, s => (b.asyncMain env s).map (none, ·)
  | .asyncBak, s => (b.asyncBak env s).map (some (.bakEnd true), ·)
  | .ifErase c, s => some (some (if c.erases s.state then .erase c else .ifWrite c), s)
  | .erase c, s =>
    onRet (b.eraseCopy c s) (fun s => some (some (.setErased c), s)) (fun s => some (some (.eraseFlush c), s))
  | .eraseFlush c, s => (flushNow env s).map (some (.eraseFree c), ·)
  | .eraseFree c, s => do
    let n ← norflashApiGetFreeBufferCount .erasing s.dev.api
    some (some (if n = 0 then .eraseFlush c else .erase c), s)
  | .setErased c, s => some (some (.ifWrite c), { s with state := c.erased })
  -- a flush that is found writing or written goes past both branches
  | .ifWrite .main, s => some (some (if s.state = .mainErased then .mainWrite else .bak false), s)
  | .ifWrite .bak, s => some (some (if s.state = .bakErased then .bakStart else .bakEnd false), s)
  | .mainWrite, s =>
    onRet (b.writeMain s) (fun s => some (some .mainClear, s)) (fun s => some (some (.writeFlush .main), s))
  | .mainClear, s => some (some .mainSetWritten, { s with is_update := false })
  | .mainSetWritten, s => some (some (.drain .main), { s with state := .mainWritten })
  | .bakStart, s => some (some .bakStartSize, { s with state := .bakWritting })
  | .bakStartSize, s => some (some .bakChunk, { s with written_size := 0 })
  | .bakChunk, s =>
    onRet (b.copyChunk s) (fun s => some (some .bakAdvance, s)) (fun s => some (some .bakFull, s))
  | .bakAdvance, s => some (some .bakIfWritten, { s with written_size := s.written_size + chunkSize })
  | .bakIfWritten, s =>
    if s.written_size = poolSize then some (some .bakSetWritten, { s with state := .bakWritten })
    else some (some .bakChunk, s)
  | .bakFull, s => some (some (.writeFlush .bak), { s with state := .bakWritting })
  | .bakSetWritten, s => some (some (.drain .bak), { s with state := .bakWritten })
  | .writeFlush c, s => (flushNow env s).map (some (.writeFree c), ·)
  | .writeFree c, s => do
    let n ← norflashApiGetFreeBufferCount .writting s.dev.api
    some (some (if n = 0 then .writeFlush c else match c with | .main => .mainWrite | .bak => .bakChunk), s)
  | .drain c, s => (flushNow env s).map (some (.drainCheck c), ·)
  | .drainCheck c, s => do
    if ← drained s then some (some (.setDone c), s) else some (some (.drain c), s)
  | .setDone c, s =>
    some (some (match c with | .main => .bak false | .bak => .bakEnd false), { s with state := c.done })
  | .bakEnd _, s => some (none, if s.state = .bakDone then { s with state := .idle } else s)

end Build

/-! ## Runs -/

inductive Event where
  /-- The sections in the pool are changed. -/
  | mutate (pool : Nat → UInt8)
  /-- `nv_record_update_runtime_userdata`. -/
  | update
  /-- `nv_record_flash_flush`, or `nv_record_flash_flush_in_sleep`, is called. -/
  | call (is_async : Bool)
  /-- The `k`-th flush under way goes on. -/
  | run (k : Nat) (env : FlushEnv)
  /-- Another user of the flash queue. -/
  | other (e : Norflash.Event)

/-- The flushes after the `k`-th has made a step. -/
def advance (l : List Pc) (k : Nat) (next : Option Pc) : List Pc :=
  match next with
  | some pc => l.set k pc
  | none => l.eraseIdx k

def Build.step (b : Build) : Event → Nv W → Option (Nv W)
  | .mutate pool, s => some { s with pool, awaiting := true, returned := false }
  | .update, s =>
    if s.config = 0 then some { s with returned := false }
    else some { s with is_update := true, awaiting := false, returned := false }
  | .call is_async, s => some { s with flushes := s.flushes ++ [.start is_async], returned := false }
  | .run k env, s => do
    let pc ← s.flushes[k]?
    let (next, s') ← b.stepFlush env pc s
    some { s' with flushes := advance s.flushes k next, returned := next.isNone && !pc.isAsync }
  | .other e, s => do
    let dev ← Norflash.step e s.dev
    some { s with dev, returned := false }

/-- The first state of a run. -/
def Build.Opened (b : Build) (s : Nv W) : Prop := ∃ flash fresh config, b.nvRecordOpen flash fresh config = some s

/-- The dirty flag is set, or will be, since a change of the pool is still to be reported. -/
def Nv.pending (s : Nv W) : Bool := s.is_update || s.awaiting

/-- The sector holds a valid record equal to the pool. -/
structure Build.Saved (b : Build) (s : Nv W) (c : Copy) : Prop where
  valid : b.recordIsValid s.dev.api.hal.flash (b.addr c) = some true
  equal : ∀ j < poolSize, s.dev.api.hal.flash (b.addr c + j) = s.pool j

end NvRecord.LegacyFlush
