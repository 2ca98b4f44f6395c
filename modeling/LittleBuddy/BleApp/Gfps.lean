import LittleBuddy.Lib.Runs
import Mathlib
/-!
# The writes of Fast Pair

`app_gfps.c` handles the writes of a seeker to the characteristics of Fast
Pair. A key-based pairing request leaves a session key and two flags in the
one environment of all connections; the handlers of the account key and of the
name use what they find there. `Authorised` says what a write may change in the
record: every account key comes from a request that was accepted in the same
connection, and every name was asked for.

The cipher functions are parameters. What the handlers notify to the seeker and
the update of the local name are left out, as no write depends on them.
-/
open Runs

namespace Gfps

/-! ## Writes and ciphers -/

abbrev Bytes (n : Nat) := Fin n → UInt8

abbrev Block := Bytes 16

abbrev Addr := Bytes 6

/-- The cipher functions: `gfps_crypto_get_secret_decrypt` answers with the key
and the decrypted request if it succeeds, and `gfps_decrypt_name` with the
buffer of the name. -/
structure Cipher where
  get_secret_decrypt : Block → Bytes 64 → Option (Block × Block)
  AES128_ECB_decrypt : Block → Block → Block
  crypto_decrypt : Block → Block → Block
  decrypt_name : Block → Bytes 8 → Bytes 8 → List UInt8 → Option (Nat → UInt8)

/-- A write to a characteristic, and the memory behind its bytes. -/
structure Write where
  data : List UInt8
  behind : Nat → UInt8

/-- The byte at `data + i`. -/
def Write.byte (w : Write) (i : Nat) : UInt8 := if h : i < w.data.length then w.data[i] else w.behind (i - w.data.length)

def Write.bytes (w : Write) (start n : Nat) : Bytes n := fun i => w.byte (start + i)

def Write.list (w : Write) (start n : Nat) : List UInt8 := (List.range n).map fun i => w.byte (start + i)

/-! ## The record -/

def FP_ACCOUNT_KEY_RECORD_NUM : Nat := 5

def FP_MAX_NAME_LEN : Nat := 64

/-- The record of Fast Pair in the extension section. -/
structure Record where
  accountKey : List Block
  key_count : accountKey.length ≤ FP_ACCOUNT_KEY_RECORD_NUM
  name : List UInt8
  nameLen : Nat

/-- The keys after one more: a full record loses its earliest key. -/
def addKey (keys : List Block) (key : Block) : List Block :=
  (if keys.length = FP_ACCOUNT_KEY_RECORD_NUM then keys.drop 1 else keys) ++ [key]

theorem length_addKey {keys : List Block} {key : Block} (h : keys.length ≤ FP_ACCOUNT_KEY_RECORD_NUM) :
    (addKey keys key).length ≤ FP_ACCOUNT_KEY_RECORD_NUM := by
  by_cases hfull : keys.length = FP_ACCOUNT_KEY_RECORD_NUM
  · rw [addKey, if_pos hfull, List.length_append, List.length_drop, List.length_singleton, hfull]
    decide
  · rw [addKey, if_neg hfull, List.length_append, List.length_singleton]
    omega

/-- `nv_record_fp_account_key_add`. -/
def Record.accountKeyAdd (r : Record) (key : Block) : Record :=
  { r with accountKey := addKey r.accountKey key, key_count := length_addKey r.key_count }

/-- `nv_record_fp_update_name`: the field is cleared, and `nameLen` bytes are
copied to its beginning, however many they are. -/
def Record.updateName (r : Record) (raw : Nat → UInt8) (nameLen : Nat) : Record :=
  { r with
    name := (List.range (max nameLen FP_MAX_NAME_LEN)).map fun i => if i < nameLen then raw i else 0
    nameLen := nameLen }

/-! ## The fields of a request -/

inductive MessageType
  | keyBasedPairingReq | actionRequest | other
  deriving DecidableEq

def messageType (req : Block) : MessageType :=
  if req 0 = 0x00 then .keyBasedPairingReq else if req 0 = 0x10 then .actionRequest else .other

def flagsRetroactivelyWriteAccountKey (req : Block) : Bool := (req 1).toNat.testBit 4

def flagsGetExistingName (req : Block) : Bool := (req 1).toNat.testBit 5

def flagsBondingAddr (req : Block) : Bool := (req 1).toNat.testBit 6

def isFollowedByAdditionalDataCh (req : Block) : Bool := (req 1).toNat.testBit 6

def isDeviceAction (req : Block) : Bool := (req 1).toNat.testBit 7

def providerAddr (req : Block) : Addr := fun i => req ⟨2 + i, by omega⟩

def seekerAddr (req : Block) : Addr := fun i => req ⟨8 + i, by omega⟩

/-- `big_little_switch` of an address. -/
def bigLittleSwitch (addr : Addr) : Addr := fun i => addr i.rev

/-! ## The environment -/

/-- `app_gfps_env`. -/
structure Env where
  keybase_pair_key : Block
  aesKeyFromECDH : Block
  isInitialPairing : Bool
  isPendingForWritingNameReq : Bool
  isKeyBasedPairingNotificationEnabled : Bool
  isPassKeyNotificationEnabled : Bool
  connectionIndex : Option Nat
  local_le_addr : Addr
  local_bt_addr : Addr
  seeker_bt_addr : Addr

/-- `app_gfps_init_env`. -/
def appGfpsInitEnv : Env :=
  { keybase_pair_key := fun _ => 0
    aesKeyFromECDH := fun _ => 0
    isInitialPairing := false
    isPendingForWritingNameReq := false
    isKeyBasedPairingNotificationEnabled := false
    isPassKeyNotificationEnabled := false
    connectionIndex := none
    local_le_addr := fun _ => 0
    local_bt_addr := fun _ => 0
    seeker_bt_addr := fun _ => 0 }

/-- `app_gfps_connected_evt_handler`, with the addresses that the stack reports. -/
def connectedEvtHandler (conidx : Nat) (leAddr btAddr : Addr) (env : Env) : Env :=
  { env with
    connectionIndex := some conidx
    local_le_addr := bigLittleSwitch leAddr
    local_bt_addr := bigLittleSwitch btAddr }

/-- `gfpsp_update_connection_state`. -/
def updateConnectionState (conidx : Nat) (leAddr btAddr : Addr) (env : Env) : Env :=
  if env.connectionIndex = none then connectedEvtHandler conidx leAddr btAddr env else env

/-- `app_gfps_disconnected_evt_handler`. -/
def disconnectedEvtHandler (conidx : Nat) (env : Env) : Env :=
  if env.connectionIndex = some conidx then
    { env with
      isKeyBasedPairingNotificationEnabled := false
      isPassKeyNotificationEnabled := false
      isPendingForWritingNameReq := false
      connectionIndex := none }
  else env

/-- `app_gfpsp_key_based_pairing_ntf_handler`. -/
def keyBasedPairingNtfHandler (conidx : Nat) (enabled : Bool) (leAddr btAddr : Addr) (env : Env) : Env :=
  let env := { env with isKeyBasedPairingNotificationEnabled := enabled }
  if enabled then updateConnectionState conidx leAddr btAddr env else env

/-- `app_gfpsp_pass_key_ntf_handler`. -/
def passKeyNtfHandler (conidx : Nat) (enabled : Bool) (leAddr btAddr : Addr) (env : Env) : Env :=
  let env := { env with isPassKeyNotificationEnabled := enabled }
  if enabled then updateConnectionState conidx leAddr btAddr env else env

/-! ## The handlers of the writes -/

inductive Status
  | noError | writeNotPermitted
  deriving DecidableEq

/-- A request that a handler took: decrypted, with its key and its status. -/
structure Request where
  raw : Block
  key : Block
  status : Status

/-- The request names one of the addresses that the environment holds as local. -/
def Env.NamesLocal (env : Env) (raw : Block) : Prop :=
  providerAddr raw = env.local_bt_addr ∨ providerAddr raw = env.local_le_addr

instance (env : Env) (raw : Block) : Decidable (env.NamesLocal raw) := inferInstanceAs (Decidable (_ ∨ _))

/-- `app_gfps_handle_decrypted_keybase_pairing_request`, with the addresses of
the connected mobiles. -/
def handleDecryptedKeybasePairingRequest (mobiles : List Addr) (raw key : Block) (env : Env) : Status × Env :=
  let env := { env with keybase_pair_key := key, seeker_bt_addr := seekerAddr raw }
  let swapedBtAddr := bigLittleSwitch env.seeker_bt_addr
  if flagsBondingAddr raw = false ∧ flagsRetroactivelyWriteAccountKey raw = true ∧ swapedBtAddr ∉ mobiles then
    (.writeNotPermitted, env)
  else if flagsGetExistingName raw then (.noError, { env with isPendingForWritingNameReq := true })
  else (.noError, env)

/-- The branch of `app_gfps_decrypt_keybase_pairing_request` for an action. -/
def handleActionRequest (raw key : Block) (env : Env) : Env :=
  let env := { env with keybase_pair_key := key, seeker_bt_addr := seekerAddr raw }
  if isDeviceAction raw then env
  else if isFollowedByAdditionalDataCh raw then { env with isPendingForWritingNameReq := true }
  else env

/-- `app_gfps_decrypt_keybase_pairing_request`: the account keys are tried in
their order. The source only tells whether a request was taken. -/
def decryptKeybasePairingRequest (c : Cipher) (mobiles : List Addr) (pairing_req : Block) :
    List Block → Env → Option Request × Env
  | [], env => (none, env)
  | accountKey :: keys, env =>
    let raw := c.AES128_ECB_decrypt pairing_req accountKey
    if env.NamesLocal raw then
      match messageType raw with
      | .keyBasedPairingReq =>
        let (status, env) := handleDecryptedKeybasePairingRequest mobiles raw accountKey env
        (some ⟨raw, accountKey, status⟩, env)
      | .actionRequest => (some ⟨raw, accountKey, .noError⟩, handleActionRequest raw accountKey env)
      | .other => decryptKeybasePairingRequest c mobiles pairing_req keys env
    else decryptKeybasePairingRequest c mobiles pairing_req keys env

/-- The session key after the `memset` of its first six bytes. -/
def clearKey (key : Block) : Block := fun i => if i.val < 6 then 0 else key i

def GFPSP_KEY_BASED_PAIRING_REQ_LEN_WITH_PUBLIC_KEY : Nat := 80

def GFPSP_KEY_BASED_PAIRING_REQ_LEN_WITHOUT_PUBLIC_KEY : Nat := 16

/-- `app_gfps_write_key_based_pairing_ind_hander`: the status of the response,
the request that was taken, and the environment. -/
def writeKeyBasedPairing (c : Cipher) (mobiles : List Addr) (w : Write) (nv : Record) (env : Env) :
    Status × Option Request × Env :=
  if w.data.length = GFPSP_KEY_BASED_PAIRING_REQ_LEN_WITH_PUBLIC_KEY then
    let env := { env with keybase_pair_key := clearKey env.keybase_pair_key }
    match c.get_secret_decrypt (w.bytes 0 16) (w.bytes 16 64) with
    | some (out_key, raw) =>
      let env := { env with aesKeyFromECDH := out_key, isInitialPairing := true }
      if messageType raw = .keyBasedPairingReq ∧ env.NamesLocal raw then
        let (status, env) := handleDecryptedKeybasePairingRequest mobiles raw out_key env
        (status, some ⟨raw, out_key, status⟩, env)
      else (.noError, none, env)
    | none => (.noError, none, env)
  else if w.data.length = GFPSP_KEY_BASED_PAIRING_REQ_LEN_WITHOUT_PUBLIC_KEY then
    let env := { env with isInitialPairing := false }
    (.noError, decryptKeybasePairingRequest c mobiles (w.bytes 0 16) nv.accountKey env)
  else (.noError, none, env)

/-- `pWriteInd->length - 16`, as a `uint32_t`. -/
def rawNameLen (w : Write) : Nat := (w.data.length + 2 ^ 32 - 16) % 2 ^ 32

/-- `app_gfps_write_name_ind_hander`: the status of the response, the buffer if
it was stored, and the environment. -/
def writeName (c : Cipher) (w : Write) (env : Env) : Status × Option (Nat → UInt8) × Env :=
  if env.isPendingForWritingNameReq = false then (.writeNotPermitted, none, env)
  else
    let key := if env.isInitialPairing then env.aesKeyFromECDH else env.keybase_pair_key
    let env := { env with isPendingForWritingNameReq := false }
    match c.decrypt_name key (w.bytes 0 8) (w.bytes 8 8) (w.list 16 (rawNameLen w)) with
    | some rawName => (.noError, some rawName, env)
    | none => (.writeNotPermitted, none, env)

/-- `app_gfps_write_accountkey_ind_hander`: the key that is added. -/
def writeAccountkey (c : Cipher) (w : Write) (env : Env) : Block :=
  c.crypto_decrypt (w.bytes 0 16) env.keybase_pair_key

/-! ## Connections -/

/-- What happened: a request that was taken with the bytes written and the
local addresses of that moment, an account key that was added, and a name that
was stored. -/
inductive Entry
  | request (session : Nat) (written : List UInt8) (env : Env) (req : Request)
  | accountKey (session : Nat) (written : List UInt8) (key : Block)
  | name (written : List UInt8) (raw : Nat → UInt8) (nameLen : Nat)

/-- The environment and the record, the session of each link, the record at the
start, and the log with its latest entry first. `latest` is the session whose
accepted request was the last write to touch the session key. -/
structure Sys where
  env : Env
  nv : Record
  links : Nat → Option Nat
  sessions : Nat
  boot : Record
  log : List Entry
  latest : Option Nat

inductive Event
  | connect (conidx : Nat)
  | disconnect (conidx : Nat)
  | keyBasedPairingNtf (conidx : Nat) (enabled : Bool) (leAddr btAddr : Addr)
  | passKeyNtf (conidx : Nat) (enabled : Bool) (leAddr btAddr : Addr)
  | writeKeyBasedPairing (conidx : Nat) (w : Write) (mobiles : List Addr)
  | writePasskey (conidx : Nat) (w : Write)
  | writeName (conidx : Nat) (w : Write)
  | writeAccountkey (conidx : Nat) (w : Write)

/-- The session that `latest` is after a write to the key-based pairing
characteristic: the longer request clears a part of the key in any case. -/
def latestAfter (session : Nat) (w : Write) (req : Option Request) (latest : Option Nat) : Option Nat :=
  match req with
  | some req => if req.status = .noError then some session else none
  | none => if w.data.length = GFPSP_KEY_BASED_PAIRING_REQ_LEN_WITH_PUBLIC_KEY then none else latest

/-- The state after a write to the key-based pairing characteristic. -/
def pairingWritten (c : Cipher) (session : Nat) (w : Write) (mobiles : List Addr) (s : Sys) : Sys :=
  let (_, req, env) := writeKeyBasedPairing c mobiles w s.nv s.env
  { s with
    env := env
    log := (req.map (Entry.request session w.data s.env)).toList ++ s.log
    latest := latestAfter session w req s.latest }

def nameWritten (c : Cipher) (w : Write) (s : Sys) : Sys :=
  match writeName c w s.env with
  | (_, some raw, env) =>
    { s with
      env := env
      nv := s.nv.updateName raw (rawNameLen w)
      log := .name w.data raw (rawNameLen w) :: s.log }
  | (_, none, env) => { s with env := env }

def accountkeyWritten (c : Cipher) (session : Nat) (w : Write) (s : Sys) : Sys :=
  let key := writeAccountkey c w s.env
  { s with nv := s.nv.accountKeyAdd key, log := .accountKey session w.data key :: s.log }

/-- One event: a new link is a new session, and only a link can be written to. -/
def step (c : Cipher) (e : Event) (s : Sys) : Option Sys :=
  match e with
  | .connect conidx =>
    if s.links conidx = none then
      some { s with links := Function.update s.links conidx (some s.sessions), sessions := s.sessions + 1 }
    else none
  | .disconnect conidx => (s.links conidx).map fun _ =>
      { s with env := disconnectedEvtHandler conidx s.env, links := Function.update s.links conidx none }
  | .keyBasedPairingNtf conidx enabled leAddr btAddr => (s.links conidx).map fun _ =>
      { s with env := keyBasedPairingNtfHandler conidx enabled leAddr btAddr s.env }
  | .passKeyNtf conidx enabled leAddr btAddr => (s.links conidx).map fun _ =>
      { s with env := passKeyNtfHandler conidx enabled leAddr btAddr s.env }
  | .writeKeyBasedPairing conidx w mobiles =>
    (s.links conidx).map fun session => pairingWritten c session w mobiles s
  | .writePasskey conidx _ => (s.links conidx).map fun _ => s
  | .writeName conidx w => (s.links conidx).map fun _ => nameWritten c w s
  | .writeAccountkey conidx w => (s.links conidx).map fun session => accountkeyWritten c session w s

/-- Fast Pair has just been initialised, with any record. -/
def Init (s : Sys) : Prop :=
  s.env = appGfpsInitEnv ∧ s.nv = s.boot ∧ s.links = (fun _ => none) ∧ s.sessions = 0 ∧ s.log = [] ∧ s.latest = none

/-! ## What a write may change -/

/-- The request is the decryption of the bytes written, with the public key that
comes with it or with an account key, and of a type and for an address that the
handler takes. -/
def Genuine (c : Cipher) (nv : Record) (written : List UInt8) (env : Env) (req : Request) : Prop :=
  env.NamesLocal req.raw ∧
  ((messageType req.raw = .keyBasedPairingReq ∧
      ∃ enc pub, List.ofFn enc ++ List.ofFn pub = written ∧ c.get_secret_decrypt enc pub = some (req.key, req.raw)) ∨
    ((messageType req.raw = .keyBasedPairingReq ∨ messageType req.raw = .actionRequest) ∧ req.key ∈ nv.accountKey ∧
      ∃ enc, List.ofFn enc = written ∧ c.AES128_ECB_decrypt enc req.key = req.raw))

/-- The request asks to write a name. -/
def AsksName (req : Request) : Prop :=
  (messageType req.raw = .keyBasedPairingReq ∧ flagsGetExistingName req.raw = true) ∨
    (messageType req.raw = .actionRequest ∧ isDeviceAction req.raw = false ∧
      isFollowedByAdditionalDataCh req.raw = true)

/-- The key is the decryption of the block written, under the key of a request
that was accepted in the session before. -/
def KeyAuthorised (c : Cipher) (earlier : List Entry) (session : Nat) (written : List UInt8) (key : Block) : Prop :=
  ∃ written' env req, .request session written' env req ∈ earlier ∧ req.status = .noError ∧
    ∃ block, List.ofFn block = written.take 16 ∧ key = c.crypto_decrypt block req.key

/-- An accepted request asked for the name, and it is the decryption of the
bytes written behind the check value and the nonce. -/
def NameAuthorised (c : Cipher) (earlier : List Entry) (written : List UInt8) (raw : Nat → UInt8) (nameLen : Nat) : Prop :=
  (∃ session written' env req, .request session written' env req ∈ earlier ∧ req.status = .noError ∧ AsksName req) ∧
    nameLen ≤ FP_MAX_NAME_LEN ∧ written.length = 16 + nameLen ∧
    ∃ key hmac nonce, List.ofFn hmac = written.take 8 ∧ List.ofFn nonce = (written.drop 8).take 8 ∧
      c.decrypt_name key hmac nonce (written.drop 16) = some raw

/-- The record after the entries of a log. -/
def replay (boot : Record) : List Entry → Record
  | [] => boot
  | .request .. :: log => replay boot log
  | .accountKey _ _ key :: log => (replay boot log).accountKeyAdd key
  | .name _ raw nameLen :: log => (replay boot log).updateName raw nameLen

/-- Each entry is authorised by the entries before it. -/
def Authorised (c : Cipher) (boot : Record) : List Entry → Prop
  | [] => True
  | .request _ written env req :: log => Genuine c (replay boot log) written env req ∧ Authorised c boot log
  | .accountKey session written key :: log => KeyAuthorised c log session written key ∧ Authorised c boot log
  | .name written raw nameLen :: log => NameAuthorised c log written raw nameLen ∧ Authorised c boot log

/-- The record changed by authorised writes only. -/
def WritesAuthorised (c : Cipher) (s : Sys) : Prop := s.nv = replay s.boot s.log ∧ Authorised c s.boot s.log

/-- An account key is written whole, in the connection whose accepted request
was the last write to touch the session key; a name that the handler waits for
has room in the record. -/
def Expected (e : Event) (s : Sys) : Prop :=
  match e with
  | .writeAccountkey conidx w => 16 ≤ w.data.length ∧ s.latest = s.links conidx
  | .writeName _ w =>
    s.env.isPendingForWritingNameReq = true → 16 ≤ w.data.length ∧ w.data.length ≤ 16 + FP_MAX_NAME_LEN
  | _ => True

/-! ## One write -/

variable {c : Cipher} {s s' : Sys} {env : Env} {w : Write} {mobiles : List Addr}

theorem Write.ofFn_bytes {start n : Nat} (h : start + n ≤ w.data.length) :
    List.ofFn (w.bytes start n) = (w.data.drop start).take n := by
  apply List.ext_getElem
  · simp only [List.length_ofFn, List.length_take, List.length_drop]
    omega
  · intro i h1 h2
    simp only [List.length_ofFn] at h1
    have hi : start + i < w.data.length := by omega
    simp only [Write.bytes, List.getElem_ofFn, List.getElem_take, List.getElem_drop, Write.byte,
      dif_pos hi]

theorem Write.list_eq {start n : Nat} (h : start + n = w.data.length) : w.list start n = w.data.drop start := by
  apply List.ext_getElem
  · simp only [Write.list, List.length_map, List.length_range, List.length_drop]
    omega
  · intro i h1 h2
    simp only [Write.list, List.length_map, List.length_range] at h1
    have hi : start + i < w.data.length := by omega
    simp only [Write.list, List.getElem_map, List.getElem_range, List.getElem_drop, Write.byte, dif_pos hi]

/-- A request that is handled sets the session key, and only an accepted one
can ask for a name. -/
theorem handleDecrypted_spec (mobiles : List Addr) (raw key : Block) (env : Env) :
    (handleDecryptedKeybasePairingRequest mobiles raw key env).2.keybase_pair_key = key ∧
      ((handleDecryptedKeybasePairingRequest mobiles raw key env).2.isPendingForWritingNameReq = true →
        env.isPendingForWritingNameReq = true ∨
          ((handleDecryptedKeybasePairingRequest mobiles raw key env).1 = .noError ∧ flagsGetExistingName raw = true)) := by
  unfold handleDecryptedKeybasePairingRequest
  dsimp only
  split
  · exact ⟨rfl, .inl⟩
  · split
    · rename_i hname
      exact ⟨rfl, fun _ => .inr ⟨rfl, hname⟩⟩
    · exact ⟨rfl, .inl⟩

theorem handleAction_spec (raw key : Block) (env : Env) :
    (handleActionRequest raw key env).keybase_pair_key = key ∧
      ((handleActionRequest raw key env).isPendingForWritingNameReq = true → env.isPendingForWritingNameReq = true ∨
        (isDeviceAction raw = false ∧ isFollowedByAdditionalDataCh raw = true)) := by
  unfold handleActionRequest
  by_cases hdevice : isDeviceAction raw = true
  · rw [if_pos hdevice]
    exact ⟨rfl, .inl⟩
  · rw [if_neg hdevice]
    by_cases hname : isFollowedByAdditionalDataCh raw = true
    · rw [if_pos hname]
      exact ⟨rfl, fun _ => .inr ⟨by simpa using hdevice, hname⟩⟩
    · rw [if_neg hname]
      exact ⟨rfl, .inl⟩

/-- What a request that was taken leaves in the environment: its key, and a name
to wait for only if it was accepted and asks for one. -/
def Leaves (env : Env) (req : Request) (env' : Env) : Prop :=
  env'.keybase_pair_key = req.key ∧
    (env'.isPendingForWritingNameReq = true → env.isPendingForWritingNameReq = true ∨
      (req.status = .noError ∧ AsksName req))

/-- The account keys are tried until one decrypts the request. -/
theorem decryptRequest_some {pairing_req : Block} {keys : List Block} {req : Request} {env' : Env}
    (h : decryptKeybasePairingRequest c mobiles pairing_req keys env = (some req, env')) :
    Leaves env req env' ∧ env.NamesLocal req.raw ∧ req.key ∈ keys ∧
      c.AES128_ECB_decrypt pairing_req req.key = req.raw ∧
      (messageType req.raw = .keyBasedPairingReq ∨ messageType req.raw = .actionRequest) := by
  induction keys with
  | nil => cases h
  | cons accountKey keys ih =>
    have later (h : decryptKeybasePairingRequest c mobiles pairing_req keys env = (some req, env')) :
        Leaves env req env' ∧ env.NamesLocal req.raw ∧ req.key ∈ accountKey :: keys ∧
          c.AES128_ECB_decrypt pairing_req req.key = req.raw ∧
          (messageType req.raw = .keyBasedPairingReq ∨ messageType req.raw = .actionRequest) := by
      obtain ⟨hleaves, hlocal, hmem, hrest⟩ := ih h
      exact ⟨hleaves, hlocal, List.mem_cons_of_mem _ hmem, hrest⟩
    simp only [decryptKeybasePairingRequest] at h
    split at h
    · rename_i hlocal
      split at h
      · rename_i htype
        cases h
        obtain ⟨hkey, hname⟩ := handleDecrypted_spec mobiles (c.AES128_ECB_decrypt pairing_req accountKey) accountKey env
        refine ⟨⟨hkey, fun hp => (hname hp).imp_right ?_⟩, hlocal, List.mem_cons_self, rfl, .inl htype⟩
        exact fun ⟨hok, hflag⟩ => ⟨hok, .inl ⟨htype, hflag⟩⟩
      · rename_i htype
        cases h
        obtain ⟨hkey, hname⟩ := handleAction_spec (c.AES128_ECB_decrypt pairing_req accountKey) accountKey env
        refine ⟨⟨hkey, fun hp => (hname hp).imp_right ?_⟩, hlocal, List.mem_cons_self, rfl, .inr htype⟩
        exact fun hflags => ⟨rfl, .inr ⟨htype, hflags⟩⟩
      · exact later h
    · exact later h

theorem decryptRequest_none {pairing_req : Block} {keys : List Block} {env' : Env}
    (h : decryptKeybasePairingRequest c mobiles pairing_req keys env = (none, env')) : env' = env := by
  induction keys with
  | nil =>
    cases h
    rfl
  | cons accountKey keys ih =>
    simp only [decryptKeybasePairingRequest] at h
    split at h
    · split at h
      · cases h
      · cases h
      · exact ih h
    · exact ih h

/-- A request that the handler takes is genuine. -/
theorem pairing_some {nv : Record} {status : Status} {req : Request} {env' : Env}
    (h : writeKeyBasedPairing c mobiles w nv env = (status, some req, env')) :
    Leaves env req env' ∧ Genuine c nv w.data env req := by
  simp only [writeKeyBasedPairing] at h
  split at h
  · -- a request with a public key
    rename_i hlen
    split at h
    · rename_i out_key raw hsecret
      split at h
      · rename_i hreq
        obtain ⟨htype, hlocal⟩ := hreq
        cases h
        obtain ⟨hkey, hname⟩ := handleDecrypted_spec mobiles raw out_key _
        refine ⟨⟨hkey, fun hp => (hname hp).imp_right ?_⟩, hlocal, .inl ⟨htype, _, _, ?_, hsecret⟩⟩
        · exact fun ⟨hok, hflag⟩ => ⟨hok, .inl ⟨htype, hflag⟩⟩
        · have hlen : w.data.length = 80 := hlen
          rw [Write.ofFn_bytes (by omega), Write.ofFn_bytes (by omega), List.drop_zero,
            List.take_of_length_le (l := w.data.drop 16) (by rw [List.length_drop]; omega), List.take_append_drop]
      · cases h
    · cases h
  · split at h
    · -- a request under one of the account keys
      rename_i hlen
      have hlen : w.data.length = 16 := hlen
      obtain ⟨-, h⟩ := Prod.mk.inj h
      obtain ⟨hleaves, hlocal, hmem, hdecrypt, htype⟩ := decryptRequest_some h
      refine ⟨hleaves, hlocal, .inr ⟨htype, hmem, _, ?_, hdecrypt⟩⟩
      rw [Write.ofFn_bytes (by omega), List.drop_zero, List.take_of_length_le (by omega)]
    · cases h

theorem pairing_none {nv : Record} {status : Status} {env' : Env}
    (h : writeKeyBasedPairing c mobiles w nv env = (status, none, env')) :
    env'.isPendingForWritingNameReq = env.isPendingForWritingNameReq ∧
      (w.data.length ≠ GFPSP_KEY_BASED_PAIRING_REQ_LEN_WITH_PUBLIC_KEY →
        env'.keybase_pair_key = env.keybase_pair_key) := by
  simp only [writeKeyBasedPairing] at h
  split at h
  · rename_i hlen
    split at h
    · split at h
      · cases h
      · cases h
        exact ⟨rfl, fun hne => absurd hlen hne⟩
    · cases h
      exact ⟨rfl, fun hne => absurd hlen hne⟩
  · split at h
    · obtain ⟨-, h⟩ := Prod.mk.inj h
      rw [decryptRequest_none h]
      exact ⟨rfl, fun _ => rfl⟩
    · cases h
      exact ⟨rfl, fun _ => rfl⟩

/-- A name is stored only when it is waited for. -/
theorem writeName_some {status : Status} {raw : Nat → UInt8} {env' : Env}
    (h : writeName c w env = (status, some raw, env')) :
    env.isPendingForWritingNameReq = true ∧ env' = { env with isPendingForWritingNameReq := false } ∧
      ∃ key, c.decrypt_name key (w.bytes 0 8) (w.bytes 8 8) (w.list 16 (rawNameLen w)) = some raw := by
  simp only [writeName] at h
  split at h
  · cases h
  · rename_i hpending
    split at h
    · rename_i hname
      cases h
      exact ⟨by simpa using hpending, rfl, _, hname⟩
    · cases h

theorem writeName_none {status : Status} {env' : Env} (h : writeName c w env = (status, none, env')) :
    env'.keybase_pair_key = env.keybase_pair_key ∧
      (env'.isPendingForWritingNameReq = true → env.isPendingForWritingNameReq = true) := by
  simp only [writeName] at h
  split at h
  · cases h
    exact ⟨rfl, id⟩
  · split at h
    · cases h
    · cases h
      exact ⟨rfl, fun h => absurd h (by simp)⟩

/-! ## Every run -/

/-- Some accepted request of the log has the property. -/
def Accepted (log : List Entry) (P : Nat → Request → Prop) : Prop :=
  ∃ session written env req, .request session written env req ∈ log ∧ req.status = .noError ∧ P session req

theorem Accepted.mono {log log' : List Entry} {P : Nat → Request → Prop} (h : Accepted log P) (hlog : log ⊆ log') :
    Accepted log' P := by
  obtain ⟨session, written, env, req, hmem, hreq⟩ := h
  exact ⟨session, written, env, req, hlog hmem, hreq⟩

/-- What a run keeps: the session key belongs to the request of `latest`, and an
accepted request asked for the name that is waited for. -/
structure Tracked (c : Cipher) (s : Sys) : Prop where
  authorised : WritesAuthorised c s
  latest : ∀ session, s.latest = some session →
    Accepted s.log fun session' req => session' = session ∧ req.key = s.env.keybase_pair_key
  asked : s.env.isPendingForWritingNameReq = true → Accepted s.log fun _ req => AsksName req

theorem Tracked.init (h : Init s) : Tracked c s := by
  obtain ⟨henv, hnv, -, -, hlog, hlatest⟩ := h
  refine ⟨?_, ?_, ?_⟩
  · rw [WritesAuthorised, hlog]
    exact ⟨hnv, trivial⟩
  · simp [hlatest]
  · simp [henv, appGfpsInitEnv]

/-- The links and the environment change, but not the session key, and no name
is waited for that was not before. -/
theorem Tracked.frame {links : Nat → Option Nat} {sessions : Nat} (hs : Tracked c s)
    (hkey : env.keybase_pair_key = s.env.keybase_pair_key)
    (hname : env.isPendingForWritingNameReq = true → s.env.isPendingForWritingNameReq = true) :
    Tracked c { s with env := env, links := links, sessions := sessions } := by
  refine ⟨hs.authorised, ?_, fun h => hs.asked (hname h)⟩
  intro session h
  dsimp only
  rw [hkey]
  exact hs.latest session h

theorem disconnected_frame (conidx : Nat) (env : Env) :
    (disconnectedEvtHandler conidx env).keybase_pair_key = env.keybase_pair_key ∧
      ((disconnectedEvtHandler conidx env).isPendingForWritingNameReq = true → env.isPendingForWritingNameReq = true) := by
  unfold disconnectedEvtHandler
  split
  · exact ⟨rfl, fun h => absurd h (by simp)⟩
  · exact ⟨rfl, id⟩

theorem updateConnectionState_frame (conidx : Nat) (leAddr btAddr : Addr) (env : Env) :
    (updateConnectionState conidx leAddr btAddr env).keybase_pair_key = env.keybase_pair_key ∧
      (updateConnectionState conidx leAddr btAddr env).isPendingForWritingNameReq = env.isPendingForWritingNameReq := by
  unfold updateConnectionState
  split
  · exact ⟨rfl, rfl⟩
  · exact ⟨rfl, rfl⟩

theorem keyBasedPairingNtf_frame (conidx : Nat) (enabled : Bool) (leAddr btAddr : Addr) (env : Env) :
    (keyBasedPairingNtfHandler conidx enabled leAddr btAddr env).keybase_pair_key = env.keybase_pair_key ∧
      (keyBasedPairingNtfHandler conidx enabled leAddr btAddr env).isPendingForWritingNameReq =
        env.isPendingForWritingNameReq := by
  cases enabled with
  | false => exact ⟨rfl, rfl⟩
  | true => exact updateConnectionState_frame conidx leAddr btAddr { env with isKeyBasedPairingNotificationEnabled := true }

theorem passKeyNtf_frame (conidx : Nat) (enabled : Bool) (leAddr btAddr : Addr) (env : Env) :
    (passKeyNtfHandler conidx enabled leAddr btAddr env).keybase_pair_key = env.keybase_pair_key ∧
      (passKeyNtfHandler conidx enabled leAddr btAddr env).isPendingForWritingNameReq = env.isPendingForWritingNameReq := by
  cases enabled with
  | false => exact ⟨rfl, rfl⟩
  | true => exact updateConnectionState_frame conidx leAddr btAddr { env with isPassKeyNotificationEnabled := true }

/-- A request that was taken goes to the log; if it was accepted, the session
key is its key. -/
theorem Tracked.pairing {session : Nat} (hs : Tracked c s) : Tracked c (pairingWritten c session w mobiles s) := by
  rcases hwrite : writeKeyBasedPairing c mobiles w s.nv s.env with ⟨status, req, env⟩
  simp only [pairingWritten, hwrite]
  cases req with
  | none =>
    obtain ⟨hname, hkey⟩ := pairing_none hwrite
    refine ⟨hs.authorised, ?_, fun h => hs.asked (by rwa [← hname])⟩
    intro session' hlatest
    simp only [latestAfter] at hlatest
    split at hlatest
    · cases hlatest
    · rename_i hlen
      dsimp only
      rw [hkey hlen]
      exact hs.latest session' hlatest
  | some req =>
    obtain ⟨⟨hkey, hname⟩, hgenuine⟩ := pairing_some hwrite
    have hmem : Entry.request session w.data s.env req ∈ Entry.request session w.data s.env req :: s.log :=
      List.mem_cons_self
    refine ⟨⟨hs.authorised.1, ?_, hs.authorised.2⟩, ?_, ?_⟩
    · have hnv : replay s.boot s.log = s.nv := hs.authorised.1.symm
      simpa [hnv] using hgenuine
    · intro session' hlatest
      simp only [latestAfter] at hlatest
      split at hlatest
      · rename_i hok
        cases hlatest
        exact ⟨session, w.data, s.env, req, hmem, hok, rfl, hkey.symm⟩
      · cases hlatest
    · intro hpending
      rcases hname hpending with hbefore | ⟨hok, hasks⟩
      · exact (hs.asked hbefore).mono (List.subset_cons_self _ _)
      · exact ⟨session, w.data, s.env, req, hmem, hok, hasks⟩

/-- A name that is stored was waited for, and has room. -/
theorem Tracked.name (hs : Tracked c s)
    (hroom : s.env.isPendingForWritingNameReq = true → 16 ≤ w.data.length ∧ w.data.length ≤ 16 + FP_MAX_NAME_LEN) :
    Tracked c (nameWritten c w s) := by
  rcases hwrite : writeName c w s.env with ⟨status, raw, env⟩
  simp only [nameWritten, hwrite]
  cases raw with
  | none =>
    obtain ⟨hkey, hname⟩ := writeName_none hwrite
    exact hs.frame hkey hname
  | some raw =>
    obtain ⟨hpending, rfl, key, hname⟩ := writeName_some hwrite
    obtain ⟨hlow, hhigh⟩ := hroom hpending
    simp only [FP_MAX_NAME_LEN] at hhigh
    have hlen : 16 + rawNameLen w = w.data.length := by
      unfold rawNameLen
      omega
    have hsub : s.log ⊆ Entry.name w.data raw (rawNameLen w) :: s.log := List.subset_cons_self _ _
    refine ⟨⟨?_, ?_, hs.authorised.2⟩, fun session h => (hs.latest session h).mono hsub, ?_⟩
    · dsimp only [replay]
      rw [← hs.authorised.1]
    · obtain ⟨session, written, env, req, hmem, hok, hasks⟩ := hs.asked hpending
      refine ⟨⟨session, written, env, req, hmem, hok, hasks⟩, ?_, hlen.symm, key, w.bytes 0 8, w.bytes 8 8, ?_, ?_, ?_⟩
      · simp only [FP_MAX_NAME_LEN]
        omega
      · rw [Write.ofFn_bytes (by omega), List.drop_zero]
      · exact Write.ofFn_bytes (by omega)
      · rw [← Write.list_eq hlen, hname]
    · simp

/-- A key that is written whole in the session of `latest` is authorised. -/
theorem Tracked.accountkey {session : Nat} (hs : Tracked c s) (hlen : 16 ≤ w.data.length)
    (hlatest : s.latest = some session) : Tracked c (accountkeyWritten c session w s) := by
  have hsub : s.log ⊆ Entry.accountKey session w.data (writeAccountkey c w s.env) :: s.log := List.subset_cons_self _ _
  refine ⟨⟨?_, ?_, hs.authorised.2⟩, fun session h => (hs.latest session h).mono hsub, fun h => (hs.asked h).mono hsub⟩
  · dsimp only [accountkeyWritten, replay]
    rw [← hs.authorised.1]
  · obtain ⟨_, written, env, req, hmem, hok, rfl, hkey⟩ := hs.latest session hlatest
    refine ⟨written, env, req, hmem, hok, w.bytes 0 16, ?_, ?_⟩
    · rw [Write.ofFn_bytes (by omega), List.drop_zero]
    · rw [hkey]
      rfl

theorem Tracked.step {e : Event} (hs : Tracked c s) (hexp : Expected e s) (h : step c e s = some s') : Tracked c s' := by
  cases e with
  | connect conidx =>
    simp only [Gfps.step] at h
    split at h
    · cases h
      exact hs.frame rfl id
    · cases h
  | disconnect conidx =>
    obtain ⟨_, -, rfl⟩ := Option.map_eq_some_iff.1 h
    obtain ⟨hkey, hname⟩ := disconnected_frame conidx s.env
    exact hs.frame hkey hname
  | keyBasedPairingNtf conidx enabled leAddr btAddr =>
    obtain ⟨_, -, rfl⟩ := Option.map_eq_some_iff.1 h
    obtain ⟨hkey, hname⟩ := keyBasedPairingNtf_frame conidx enabled leAddr btAddr s.env
    exact hs.frame hkey (by rw [hname]; exact id)
  | passKeyNtf conidx enabled leAddr btAddr =>
    obtain ⟨_, -, rfl⟩ := Option.map_eq_some_iff.1 h
    obtain ⟨hkey, hname⟩ := passKeyNtf_frame conidx enabled leAddr btAddr s.env
    exact hs.frame hkey (by rw [hname]; exact id)
  | writeKeyBasedPairing conidx w mobiles =>
    obtain ⟨session, -, rfl⟩ := Option.map_eq_some_iff.1 h
    exact hs.pairing
  | writePasskey conidx w =>
    obtain ⟨_, -, rfl⟩ := Option.map_eq_some_iff.1 h
    exact hs
  | writeName conidx w =>
    obtain ⟨_, -, rfl⟩ := Option.map_eq_some_iff.1 h
    exact hs.name hexp
  | writeAccountkey conidx w =>
    obtain ⟨session, hlink, rfl⟩ := Option.map_eq_some_iff.1 h
    obtain ⟨hlen, hlatest⟩ := hexp
    exact hs.accountkey hlen (hlatest.trans hlink)

/-- In every run whose account keys and names are written as the seeker is
expected to, the record changes by authorised writes only. -/
theorem writes_authorised {evs : List Event} (hrun : Run (step c) Expected Init s evs) : WritesAuthorised c s := by
  have htracked : Tracked c s := hrun.inv (Tracked c) (fun _ => Tracked.init) fun _ _ _ hs hexp h => hs.step hexp h
  exact htracked.authorised

instance (e : Event) (s : Sys) : Decidable (Expected e s) := by
  cases e <;> unfold Expected <;> infer_instance

/-- A cipher that shows the key and the texts. -/
def plain : Cipher where
  get_secret_decrypt enc pub := some (fun i => pub (i.castLE (by decide)), enc)
  AES128_ECB_decrypt req key := fun i => req i ^^^ key i
  crypto_decrypt data key := fun i => data i ^^^ key i
  decrypt_name _ _ _ enc := some fun i => enc.getD i 0

def emptyRecord : Record := { accountKey := [], key_count := by decide, name := [], nameLen := 0 }

def initial (nv : Record) : Sys :=
  { env := appGfpsInitEnv, nv := nv, links := fun _ => none, sessions := 0, boot := nv, log := [], latest := none }

theorem init_initial (nv : Record) : Init (initial nv) := ⟨rfl, rfl, rfl, rfl, rfl, rfl⟩

def write (data : List UInt8) : Write := { data := data, behind := fun _ => 0 }

/-- The seeker enables the notifications, asks for a name with a public key, and
writes an account key and a name of two bytes. -/
def pairing : List Event :=
  [.connect 0, .keyBasedPairingNtf 0 true (fun _ => 7) (fun _ => 9),
    .writeKeyBasedPairing 0 (write ([0x00, 0x20, 9, 9, 9, 9, 9, 9] ++ List.replicate 72 0)) [],
    .writeAccountkey 0 (write (List.replicate 16 5)),
    .writeName 0 (write (List.replicate 16 0 ++ [0x61, 0x62]))]

theorem writes_authorised_pairing : ∃ s, Run (step plain) Expected Init s pairing ∧
    s.nv.accountKey = [fun _ => 5] ∧ s.nv.nameLen = 2 ∧ WritesAuthorised plain s := by
  obtain ⟨s, hrun, hgood⟩ := exists_run_of_check (step plain) Expected Init (some (initial emptyRecord)) pairing
    (fun s => s.nv.accountKey == [fun _ => 5] && s.nv.nameLen == 2)
    (by rintro _ ⟨⟩; exact init_initial emptyRecord) (by decide +kernel)
  rw [Bool.and_eq_true, beq_iff_eq, beq_iff_eq] at hgood
  exact ⟨s, hrun, hgood.1, hgood.2, writes_authorised hrun⟩

/-- The log is that of an account key. -/
def onlyKey : List Entry → Bool
  | [.accountKey ..] => true
  | _ => false

/-- A seeker that connects and writes an account key at once: it is added,
under the session key that nobody has set. -/
theorem key_without_request : ∃ s, Run (step plain) (fun _ _ => True) Init s
    [.connect 0, .writeAccountkey 0 (write (List.replicate 16 5))] ∧ ¬ WritesAuthorised plain s := by
  obtain ⟨s, hrun, hgood⟩ := exists_run_of_check (step plain) (fun _ _ => True) Init (some (initial emptyRecord))
    [.connect 0, .writeAccountkey 0 (write (List.replicate 16 5))]
    (fun s => onlyKey s.log)
    (by rintro _ ⟨⟩; exact init_initial emptyRecord) (by decide +kernel)
  refine ⟨s, hrun, ?_⟩
  rintro ⟨-, hauth⟩
  unfold onlyKey at hgood
  split at hgood
  · rename_i hlog
    rw [hlog] at hauth
    obtain ⟨_, _, _, hmem, -⟩ := hauth.1
    exact List.not_mem_nil hmem
  · cases hgood

end Gfps
