import LittleBuddy.Lib.Bytes
import LittleBuddy.Lib.Runs
import LittleBuddy.Utils.CQueue
/-!
# The relay of OTA packets

How `services/ota/ota_common.cpp` sends OTA commands to the other earbud: the
sender splits a packet into frames and queues them, a thread sends the frames,
and the receiver collects them and hands the packet on. Both earbuds run the
same code, and every packet but a response is answered.
-/
open Bytes Runs Utils

namespace Ota

/-! ## The code -/

/-- `OTA_COMMAND_E`. -/
inductive OtaCommand where
  | begin | data | apply | abort | rsp
  deriving DecidableEq

def OtaCommand.code : OtaCommand → UInt8
  | begin => 0
  | data => 1
  | apply => 2
  | abort => 3
  | rsp => 4

/-- The command of a code; the others are `INVALID`. -/
def OtaCommand.ofCode (c : UInt8) : Option OtaCommand :=
  [begin, data, apply, abort, rsp].find? (·.code = c)

@[simp] theorem ofCode_code (c : OtaCommand) : OtaCommand.ofCode c.code = some c := by
  cases c <;> rfl

/-- `OTA_STATUS_E`. -/
inductive OtaStatus where
  | ok | error | errorRelayTimeout | errorChecksum | errorNotAllowed
  deriving DecidableEq

def OtaStatus.code : OtaStatus → UInt8
  | ok => 0
  | error => 1
  | errorRelayTimeout => 2
  | errorChecksum => 3
  | errorNotAllowed => 4

/-- `TWS_RELAY_DATA_MAX_SIZE`, `OTA_MAX_MTU`, `OTA_TWS_HEAD_SIZE`, `OTA_TWS_PAYLOAD_MAX_LEN`. -/
abbrev relayDataMaxSize : Nat := 512
abbrev otaMaxMtu : Nat := 700
abbrev headSize : Nat := 7
abbrev payloadMaxLen : Nat := relayDataMaxSize - headSize

/-- `OTA_RELAY_PACKET_MAGIC_CODE_...`. -/
abbrev magicInvalid : Nat := 0x44454144
abbrev magicComplete : Nat := 0x28269395
abbrev magicIncomplete : Nat := 0x17188284

structure Packet where
  cmd : OtaCommand
  payload : List UInt8
  deriving DecidableEq

/-- The part of `otaEnv` that the relay uses. `sent` and `delivered` are ghosts:
the packets accepted for sending, and the received ones that were handed on. -/
structure Device where
  txQueue : CQueue
  rxQueue : CQueue
  tempRxBuf : Nat → UInt8
  peerResult : UInt8
  currentMagicCode : Nat
  currentCmdType : UInt8
  /-- Whether a handler is registered; what it does is up to the application. -/
  peerCmdReceivedHandler : Bool
  sent : List Packet
  delivered : List Packet

/-- The first bytes of an `OTA_TWS_DATA_T`. -/
def frameHead (cmdType : UInt8) (magicCode length : Nat) : List UInt8 :=
  cmdType :: (leBytes 4 magicCode ++ leBytes 2 length)

/-- Queues one frame, behind its length. -/
def pushFrame (cmdType : OtaCommand) (magicCode length : Nat) (data : List UInt8) (d : Device) : Option Device :=
  match enCQueue d.txQueue (leBytes 2 (headSize + length)) with
  | (.err, _) => none
  | (.ok, q) =>
    match enCQueue q (frameHead cmdType.code magicCode length ++ data.take length) with
    | (.err, _) => none
    | (.ok, q) => some { d with txQueue := q }

/-- The loop of `_ota_relay_data`, with `k` frames still to queue. -/
def relayLoop (cmdType : OtaCommand) (data : List UInt8) (frameNum : Nat) : Nat → Device → Option Device
  | 0, d => some d
  | k + 1, d => do
    let i := frameNum - (k + 1)
    let rest := data.drop (i * payloadMaxLen)
    let d ← if i + 1 = frameNum then pushFrame cmdType magicComplete (data.length % payloadMaxLen) rest d
      else pushFrame cmdType magicIncomplete payloadMaxLen rest d
    relayLoop cmdType data frameNum k d

/-- `_ota_relay_data`. -/
def otaRelayData (cmdType : OtaCommand) (data : List UInt8) (d : Device) : Option Device :=
  if data.length > payloadMaxLen then none
  else
    let frameNum :=
      if data.length % payloadMaxLen ≠ 0 then data.length / payloadMaxLen + 1 else data.length / payloadMaxLen
    relayLoop cmdType data frameNum frameNum { d with sent := d.sent ++ [⟨cmdType, data⟩] }

/-- `ota_common_relay_data_to_peer`; `needed` is what `_relay_data_needed` says. -/
def otaCommonRelayDataToPeer (needed : Bool) (cmdType : OtaCommand) (data : List UInt8) (d : Device) :
    Option (OtaStatus × Device) :=
  if needed then (otaRelayData cmdType data d).map (.ok, ·) else some (.error, d)

/-- One round of `_ota_tws_thread`: the frame it sends, if one is queued. -/
def otaTwsThread (d : Device) : Option (Option (List UInt8) × Device) :=
  if lengthOfCQueue d.txQueue = 0 then some (none, d)
  else
    match deCQueue d.txQueue true 2 with
    | (.err, _, _) => none
    | (.ok, out, q) =>
      let packetLen := ofLe out
      if packetLen > relayDataMaxSize then none
      else
        match deCQueue q true packetLen with
        | (.err, _, _) => none
        | (.ok, relayBuf, q) => some (some relayBuf, { d with txQueue := q })

/-- `otaTwsData->magicCode`. -/
def magicOf (ptr : Nat → UInt8) : Nat := ofLe (read ptr 1 4)

/-- A frame of this length is accepted. -/
def frameIsValid (ptr : Nat → UInt8) (length : Nat) : Bool :=
  decide (length = ofLe (read ptr 5 2) + headSize) &&
    (decide (magicOf ptr = magicComplete) || decide (magicOf ptr = magicIncomplete))

/-- `_tws_frame_validity_check`. -/
def twsFrameValidityCheck (ptr : Nat → UInt8) (length : Nat) (d : Device) : Option Bool :=
  if length > relayDataMaxSize then none
  else if d.currentMagicCode = magicIncomplete ∧ ptr 0 ≠ d.currentCmdType then none
  else some (frameIsValid ptr length)

/-- `_tws_rsp`. -/
def twsRsp (status : OtaStatus) (d : Device) : Option Device := otaRelayData .rsp [status.code] d

/-- A whole packet has been received and copied to `tempRxBuf`. -/
def dispatch (cmdType : OtaCommand) (packet : List UInt8) (status : OtaStatus) (d : Device) : Option Device :=
  match cmdType with
  | .rsp => some { d with peerResult := d.tempRxBuf 0, delivered := d.delivered ++ [⟨.rsp, packet⟩] }
  -- for `BEGIN` an initializer of the application runs first
  | cmd =>
    if d.peerCmdReceivedHandler then twsRsp status { d with delivered := d.delivered ++ [⟨cmd, packet⟩] }
    else twsRsp .ok d

/-- `ota_common_on_relay_data_received`, with the status that the handler
returns. Says whether the frame was accepted. -/
def otaCommonOnRelayDataReceived (ptr : Nat → UInt8) (paramLen : Nat) (status : OtaStatus) (d : Device) :
    Option (Bool × Device) := do
  if ← twsFrameValidityCheck ptr paramLen d then
    match enCQueue d.rxQueue (read ptr headSize (paramLen - headSize)) with
    | (.err, _) => none
    | (.ok, rx) =>
      let d := { d with currentMagicCode := magicOf ptr, currentCmdType := ptr 0, rxQueue := rx }
      if magicOf ptr = magicComplete then
        let packetLen := (lengthOfCQueue rx).toNat
        let (_, packet, rx) := deCQueue rx true packetLen
        let cmdType ← OtaCommand.ofCode (ptr 0)
        let d ← dispatch cmdType packet status
          { d with rxQueue := rx, tempRxBuf := fun j => packet.getD j (d.tempRxBuf j) }
        some (true, { d with currentMagicCode := magicInvalid, currentCmdType := 5 })
      else some (true, d)
  else
    match ← OtaCommand.ofCode (ptr 0) with
    | .rsp => some (false, { d with peerResult := OtaStatus.error.code })
    | _ =>
      let d ← twsRsp .error d
      some (false, d)

end Ota
