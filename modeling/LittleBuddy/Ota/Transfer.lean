import LittleBuddy.Norflash.Pages
import LittleBuddy.NvRecord.Model
import LittleBuddy.NvRecord.OtaInfo
import Mathlib
/-!
# The transfer of an image

`services/ota/ota_common.cpp`, from the command that begins a transfer to the one
that leaves it. The image comes in in packets, goes through a cache buffer of one
sector and the flash queue of its device to the flash, and the record of
`nvrecord_ota.c` is told how far it came.

A command is worked off in steps: `acts` are the calls for the flash that are
next, `next` is where the code goes on behind them. Between two steps others may
flush, erase and write, the record may get into the flash, and the power may
fail. The handlers that an OTA user registers are not part of the repository;
their status is an argument, and so are the outcomes of the sanity check and of
the CRC of the image, which only decide about the stage.
-/
open NorMem Norflash NvRecord NvRecord.Ota

namespace Ota.Transfer

/-! ## The environment -/

/-- `OTA_DATA_CACHE_BUFFER_SIZE`, one sector. -/
abbrev cacheBufferSize : Nat := 4096
/-- `OTA_BREAKPOINT_STORE_GRANULARITY`. -/
abbrev storeGranularity : Nat := 256 * 1024
/-- `NORMAL_BOOT`. -/
abbrev normalBoot : Nat := 0xBE57EC1C
/-- `OTA_USER_NUM`, no user. -/
abbrev otaUserNum : UInt8 := 5

/-- `OTA_DEVICE_E`. -/
inductive Device where
  | app | hotword
  deriving DecidableEq

def Device.index : Device → Nat
  | .app => 0
  | .hotword => 1

/-- `_get_flash_module_from_ota_device`. -/
def Device.module : Device → ModId
  | .app => 2
  | .hotword => 8

/-- `OTA_COMMON_ENV_T`, the part that the transfer uses. -/
structure Env where
  dataCacheBuffer : Nat → UInt8
  currentStage : UInt8
  currentUser : UInt8
  deviceId : Device
  sanityCheckEnable : Bool
  totalImageSize : Nat
  version : CString
  receivedDataSize : Nat
  breakPoint : Nat
  dataCacheBufferOffset : Nat
  newImageFlashOffset : Nat
  newImageProgramOffset : Nat

/-- `_reset_env`. -/
def resetEnv : Env := ⟨fun _ => 0, otaStageIdle, otaUserNum, .app, false, 0, ⟨[], by decide⟩, 0, 0, 0, 0, 0⟩

/-! ## Calls for the flash -/

inductive FlashAct where
  | erase (flashOffset : Nat)
  | program (flashOffset : Nat) (ptr : Nat → UInt8) (len : Nat) (synWrite : Bool)
  | flushPending

/-- The call, and what it does when it is executed directly. -/
def FlashAct.exec {W : Nat} (m : ModId) (script : List FlushEnv) : FlashAct → Sys W → Option (Sys W)
  | erase flashOffset, s => (appFlashPageErase m flashOffset script s.api).map fun r =>
    ⟨r.2, NorMem.erase s.direct (pageAddr flashOffset) sectorSize⟩
  | program flashOffset ptr len synWrite, s =>
    (appFlashPageProgram m flashOffset ptr len synWrite script s.api).map fun r =>
      ⟨r.2, NorMem.program s.direct (pageAddr flashOffset) len ptr⟩
  | flushPending, s => (appFlushPendingFlashOp m .all script s.api).map fun r => ⟨r.2, s.direct⟩

/-- `_flush_data_to_flash`: up to the first sector, whole sectors, and the rest. -/
def flushDataToFlash (ptrSource : Nat → UInt8) (lengthToBurn offsetInFlashToProgram : Nat) (synWrite : Bool) :
    List FlashAct :=
  let preBytes := min lengthToBurn ((sectorSize - offsetInFlashToProgram % sectorSize) % sectorSize)
  let sectorCnt := (lengthToBurn - preBytes) / sectorSize
  let postBytes :=
    if preBytes + sectorCnt * sectorSize < lengthToBurn then (offsetInFlashToProgram + lengthToBurn) % sectorSize else 0
  let sectorIndex := (offsetInFlashToProgram + preBytes) / sectorSize
  let sectorAt (i len : Nat) : List FlashAct :=
    [.erase ((sectorIndex + i) * sectorSize),
      .program ((sectorIndex + i) * sectorSize) (fun j => ptrSource (preBytes + i * sectorSize + j)) len synWrite]
  (if 0 < preBytes then [.program offsetInFlashToProgram ptrSource preBytes synWrite] else []) ++
    (List.range sectorCnt).flatMap (sectorAt · sectorSize) ++
    (if 0 < postBytes then sectorAt sectorCnt postBytes else []) ++ [.flushPending]

/-- From a sector on, not more than a sector: erase, program, flush. -/
def sectorActs (flashOffset : Nat) (ptr : Nat → UInt8) (len : Nat) (synWrite : Bool) : List FlashAct :=
  [.erase flashOffset, .program flashOffset ptr len synWrite, .flushPending]

theorem flushDataToFlash_sector {ptr : Nat → UInt8} {len offset : Nat} {synWrite : Bool} (ho : offset % sectorSize = 0)
    (hpos : 0 < len) (hlen : len ≤ sectorSize) :
    flushDataToFlash ptr len offset synWrite = sectorActs offset ptr len synWrite := by
  have hpre : min len ((sectorSize - offset % sectorSize) % sectorSize) = 0 := by
    simp only [sectorSize] at *
    omega
  have hstart : offset / sectorSize * sectorSize = offset := by
    simp only [sectorSize] at *
    omega
  unfold flushDataToFlash sectorActs
  simp only [hpre, Nat.sub_zero, Nat.zero_add, Nat.add_zero]
  rcases Nat.lt_or_eq_of_le hlen with hlt | rfl
  · have hpost : (offset + len) % sectorSize = len := by
      simp only [sectorSize] at *
      omega
    simp [Nat.div_eq_of_lt hlt, hpost, hpos, hstart]
  · simp [hstart]

/-! ## The commands -/

/-- Where the code goes on: in the loop over the packet, behind the programming
of a full buffer, behind the loop, behind the last programming, behind the magic
number, and in `ota_common_command_received_handler` behind the user's handler. -/
inductive Next where
  | idle
  | loop (rest : List UInt8) (len : Nat)
  | programmed (rest : List UInt8) (len : Nat)
  | received (len : Nat)
  | check
  | verified
  | progress

/-- What a transfer is to bring: the image, and where it goes. -/
structure Target where
  image : Nat → UInt8
  device : Device
  offset : Nat
  size : Nat

/-- The records in RAM, and what the flash has of them. The last transfer's target is kept for the statements. -/
structure State (W : Nat) where
  env : Env
  infos : Nat → OtaInfo
  stored : Nat → OtaInfo
  sys : Sys W
  acts : List FlashAct
  next : Next
  target : Option Target

/-- `OTA_BEGIN_PARAM_T`. -/
structure BeginParam where
  user : UInt8
  device : Device
  imageSize : Nat
  flashOffset : Nat
  startOffset : Nat
  version : CString

section Code
variable {W : Nat} (behind : Nat → UInt8)

/-- `nv_record_ota_update_info`, for the device of the environment. -/
def State.updateInfo (s : State W) (status : UInt8) (size : Nat) (session : CString) : Option (State W) :=
  (Ota.updateInfo behind s.infos s.env.deviceId.index status (.ofNat size) session).map fun r => { s with infos := r.2 }

/-- The end of every command: with the status OK the record is brought up to date. -/
def State.updateProgress (s : State W) (status : Bool) : Option (State W) :=
  if status then s.updateInfo behind s.env.currentStage s.env.totalImageSize s.env.version else some s

/-- `OTA_COMMAND_BEGIN`. -/
def State.begin (s : State W) (c : BeginParam) (image : Nat → UInt8) (status : Bool) : Option (State W) :=
  if s.env.currentStage ≠ otaStageIdle ∨ (s.env.currentUser ≠ otaUserNum ∧ c.user ≠ otaUserNum) ∨
    c.startOffset % sectorSize ≠ 0 then none
  else
    State.updateProgress behind { s with
      env := { s.env with
        currentUser := c.user
        totalImageSize := c.imageSize
        newImageProgramOffset := c.startOffset
        receivedDataSize := c.startOffset
        deviceId := c.device
        version := c.version
        newImageFlashOffset := c.flashOffset
        currentStage := otaStageOngoing }
      target := some ⟨image, c.device, c.flashOffset, c.imageSize⟩ } status

/-- The condition of the loop over a packet. -/
def again (rest : List UInt8) (len : Nat) : Next := if rest.isEmpty then .received len else .loop rest len

/-- The address that `newImageProgramOffset` stands for. -/
def Env.programAt (env : Env) : Nat := (env.newImageProgramOffset + env.newImageFlashOffset) % 2 ^ 32

/-- One iteration of the loop, up to the programming of a full buffer. -/
def State.copy (s : State W) (rest : List UInt8) (len : Nat) : Option (State W) :=
  let filled := s.env.dataCacheBufferOffset
  let bytesToCopy := if filled + rest.length > cacheBufferSize then cacheBufferSize - filled else rest.length
  let env := { s.env with
    dataCacheBuffer := memcpy s.env.dataCacheBuffer filled (bufferOf rest) bytesToCopy
    dataCacheBufferOffset := filled + bytesToCopy }
  if cacheBufferSize < env.dataCacheBufferOffset then none
  else if env.dataCacheBufferOffset = cacheBufferSize then
    some { s with
      env
      acts := flushDataToFlash env.dataCacheBuffer cacheBufferSize env.programAt false
      next := .programmed (rest.drop bytesToCopy) len }
  else some { s with env, next := again (rest.drop bytesToCopy) len }

/-- Behind the programming of a full buffer. -/
def State.programmed (s : State W) (rest : List UInt8) (len : Nat) : State W :=
  { s with
    env := { s.env with
      newImageProgramOffset := (s.env.newImageProgramOffset + cacheBufferSize) % 2 ^ 32
      dataCacheBufferOffset := 0 }
    next := again rest len }

/-- Behind the loop: the last programming, or the breakpoint. -/
def State.received (s : State W) (len : Nat) : Option (State W) :=
  let env := { s.env with receivedDataSize := (s.env.receivedDataSize + len) % 2 ^ 32 }
  if env.receivedDataSize = env.totalImageSize then
    some { s with
      env
      acts := if env.dataCacheBufferOffset ≠ 0 then
        flushDataToFlash env.dataCacheBuffer env.dataCacheBufferOffset env.programAt true else []
      next := .check }
  else if (env.receivedDataSize + 2 ^ 32 - env.breakPoint) % 2 ^ 32 ≥ storeGranularity then
    let breakPoint := env.receivedDataSize / storeGranularity * storeGranularity
    (updateBreakpoint s.infos env.currentUser env.deviceId.index (.ofNat breakPoint)).map fun r =>
      { s with env := { env with breakPoint }, infos := r.2, next := .progress }
  else some { s with env, next := .progress }

/-- `INVALID_VERSION_STR`, "BESTECHNIC". -/
def invalidVersionStr : CString := ⟨[66, 69, 83, 84, 69, 67, 72, 78, 73, 67], by decide⟩

/-- The stage in which the transfer ends. -/
def State.finish (s : State W) (stage : UInt8) : Option (State W) :=
  let s := { s with env := { s.env with currentStage := stage }, next := .progress }
  if stage = otaStageIdle then
    s.updateInfo behind stage 0 invalidVersionStr
  else s.updateInfo behind stage s.env.totalImageSize s.env.version

/-- Behind the last programming: the sanity check, and `_update_magic_number`. -/
def State.check (s : State W) (sane : Bool) : Option (State W) :=
  if s.env.deviceId = .app then
    if s.env.sanityCheckEnable && !sane then s.finish behind otaStageIdle
    else
      let sector := memcpy s.env.dataCacheBuffer 0 (fun j => s.sys.api.hal.flash (checkAddr s.env.newImageFlashOffset + j))
        sectorSize
      let env := { s.env with dataCacheBuffer := putU32 sector 0 normalBoot }
      some { s with
        env
        acts := sectorActs env.newImageFlashOffset env.dataCacheBuffer sectorSize true
        next := .verified }
  else s.finish behind otaStageDone

/-- One step of a command. -/
def State.work (s : State W) (script : List FlushEnv) (ok : Bool) : Option (State W) :=
  match s.acts with
  | act :: acts => (act.exec s.env.deviceId.module script s.sys).map fun sys => { s with sys, acts }
  | [] =>
    match s.next with
    | .idle => none
    | .loop rest len => s.copy rest len
    | .programmed rest len => some (s.programmed rest len)
    | .received len => s.received len
    | .check => s.check behind ok
    | .verified => s.finish behind (if ok then otaStageDone else otaStageIdle)
    | .progress => State.updateProgress behind { s with next := .idle } ok

/-- Nothing is left to do for the last command. -/
def State.isIdle (s : State W) : Bool :=
  s.acts.isEmpty && match s.next with
    | .idle => true
    | _ => false

inductive Event where
  | begin (c : BeginParam) (image : Nat → UInt8) (status : Bool)
  | data (bytes : List UInt8)
  | leave (status : Bool)
  | work (script : List FlushEnv) (ok : Bool)
  | call (e : Norflash.Event)
  | persist
  | reset

/-- One event. `leave` is `OTA_COMMAND_APPLY` or `OTA_COMMAND_ABORT`, `call` is a
call of another component, and `persist` the record's way into the flash. -/
def step : Event → State W → Option (State W)
  | .begin c image status, s => if s.isIdle then s.begin behind c image status else none
  | .data bytes, s => if s.isIdle then some { s with next := .loop bytes bytes.length } else none
  | .leave status, s =>
    if s.isIdle then (s.updateProgress behind status).map fun s => { s with env := resetEnv } else none
  | .work script ok, s => s.work behind script ok
  | .call e, s => (Norflash.step e s.sys).map fun sys => { s with sys }
  | .persist, s => some { s with stored := s.infos }
  | .reset, s => some
      { s with env := resetEnv, infos := s.stored, sys := initial W s.sys.api.hal.flash, acts := [], next := .idle }

end Code

end Ota.Transfer
