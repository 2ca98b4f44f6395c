import Mathlib.Algebra.Group.Nat.Defs
import Mathlib.Data.List.Basic
import Mathlib.Tactic.Common
/-!
# Shared information of the two earbuds

`services/app_tws/src/app_tws_if.cpp` sends the information of a user to the
peer, behind one byte with the number of the user, and hands what arrives to the
handlers of that user. `sync_info_iff` says which messages are handled in bounds,
and which information arrives as it was prepared.

`TWS_SYNC_USER_E` takes one byte. The buffer is used under its mutex, and
`tws_ctrl_send_cmd` and `tws_ctrl_send_rsp` send what is in it when they are called.
-/

namespace Ibrt.SyncInfo

/-! ## The code -/

/-- `TWS_SYNC_USER_NUM`. -/
abbrev twsSyncUserNum : Nat := 7

/-- The size of `info` in `TWS_SYNC_DATA_T`: `TWS_SYNC_BUF_SIZE - 1`. -/
abbrev infoSize : Nat := 299

/-- What a prepare handler writes to its buffer; its length is a `uint16_t`. -/
structure Info where
  bytes : List UInt8
  length_lt : bytes.length < 2 ^ 16

/-- `TWS_SYNC_USER_T`: which handlers there are, and what the prepare handlers write. -/
structure TwsSyncUser where
  sync_info_prepare_handler : Option Info
  sync_info_received_handler : Bool
  sync_info_prepare_rsp_handler : Option Info
  sync_info_rsp_received_handler : Bool
  sync_info_rsp_timeout_handler : Bool

/-- `TWS_SYNC_DATA_T`. -/
structure TwsSyncData where
  userId : UInt8
  info : List UInt8

/-- `twsEnv` and `twsSyncBuf`. -/
structure TwsEnv where
  syncUser : Fin twsSyncUserNum → TwsSyncUser
  twsSyncBuf : TwsSyncData
  info_length : twsSyncBuf.info.length = infoSize

/-- A call of a user's handler: the user, `buf` and `len`. -/
structure HandlerCall where
  user : Fin twsSyncUserNum
  buf : Nat → UInt8
  len : UInt16

/-- A prepare handler writes to `twsSyncBuf.info`; none if it writes behind it. -/
def prepare (info : Info) (s : TwsEnv) : Option TwsEnv :=
  if h : info.bytes.length ≤ infoSize then
    some { s with
      twsSyncBuf := { s.twsSyncBuf with info := info.bytes ++ s.twsSyncBuf.info.drop info.bytes.length }
      info_length := by
        have := s.info_length
        rw [List.length_append, List.length_drop]
        omega }
  else none

/-- The first `length` bytes of `twsSyncBuf`. -/
def TwsEnv.sent (s : TwsEnv) (length : UInt16) : List UInt8 := (s.twsSyncBuf.userId :: s.twsSyncBuf.info).take length.toNat

/-- `app_tws_if_sync_info`: the command that it sends, if any. -/
def appTwsIfSyncInfo (id : Fin twsSyncUserNum) (s : TwsEnv) : Option (Option (List UInt8) × TwsEnv) :=
  match (s.syncUser id).sync_info_prepare_handler with
  | none => some (none, s)
  | some info =>
    match prepare info s with
    | none => none
    | some s =>
      let length := UInt16.ofNat info.bytes.length
      if length ≠ 0 then
        let s := { s with twsSyncBuf := { s.twsSyncBuf with userId := UInt8.ofNat id }, info_length := s.info_length }
        some (some (s.sent (length + 1)), s)
      else some (none, s)

/-- `twsEnv.syncUser[pInfo->userId]` with its index; none behind the table. -/
def syncUserOf (s : TwsEnv) (p_buff : Nat → UInt8) : Option (Fin twsSyncUserNum × TwsSyncUser) :=
  if h : (p_buff 0).toNat < twsSyncUserNum then some (⟨(p_buff 0).toNat, h⟩, s.syncUser ⟨(p_buff 0).toNat, h⟩) else none

/-- A handler is called with the bytes behind the user and `length - 1`. -/
def callWith (user : Fin twsSyncUserNum) (p_buff : Nat → UInt8) (length : UInt16) : HandlerCall :=
  ⟨user, fun i => p_buff (i + 1), length - 1⟩

/-- `app_tws_if_sync_info_received_handler`, up to the response. -/
def appTwsIfSyncInfoReceivedHandler (p_buff : Nat → UInt8) (length : UInt16) (s : TwsEnv) : Option (List HandlerCall) :=
  (syncUserOf s p_buff).map fun u => if u.2.sync_info_received_handler then [callWith u.1 p_buff length] else []

/-- The second part of `app_tws_if_sync_info_received_handler`: the response. -/
def sendRsp (p_buff : Nat → UInt8) (s : TwsEnv) : Option (List UInt8 × TwsEnv) :=
  match syncUserOf s p_buff with
  | none => none
  | some (_, user) =>
    let prepared :=
      match user.sync_info_prepare_rsp_handler with
      | none => some (s, 0)
      | some info => (prepare info s).map fun s => (s, UInt16.ofNat info.bytes.length)
    prepared.map fun (s, len) =>
      let s := { s with twsSyncBuf := { s.twsSyncBuf with userId := p_buff 0 }, info_length := s.info_length }
      (s.sent (len + 1), s)

/-- `app_tws_if_sync_info_rsp_received_handler`. -/
def appTwsIfSyncInfoRspReceivedHandler (p_buff : Nat → UInt8) (length : UInt16) (s : TwsEnv) : Option (List HandlerCall) :=
  (syncUserOf s p_buff).map fun u => if u.2.sync_info_rsp_received_handler then [callWith u.1 p_buff length] else []

/-- `app_tws_if_sync_info_rsp_timeout_handler`. -/
def appTwsIfSyncInfoRspTimeoutHandler (p_buff : Nat → UInt8) (length : UInt16) (s : TwsEnv) : Option (List HandlerCall) :=
  (syncUserOf s p_buff).map fun u => if u.2.sync_info_rsp_timeout_handler then [callWith u.1 p_buff length] else []

/-- How a message is delivered. -/
inductive Kind where
  | command
  | response
  | timeout

/-- The handler of the messages of a kind, -/
def Kind.handler : Kind → (Nat → UInt8) → UInt16 → TwsEnv → Option (List HandlerCall)
  | command => appTwsIfSyncInfoReceivedHandler
  | response => appTwsIfSyncInfoRspReceivedHandler
  | timeout => appTwsIfSyncInfoRspTimeoutHandler

/-- and whether a user has one. -/
def Kind.registered : Kind → TwsSyncUser → Bool
  | command => TwsSyncUser.sync_info_received_handler
  | response => TwsSyncUser.sync_info_rsp_received_handler
  | timeout => TwsSyncUser.sync_info_rsp_timeout_handler

/-! ## What arrives -/

/-- The message is handled inside the table, and the length given to the user is
that of the information behind the first byte. -/
def InBounds (kind : Kind) (p_buff : Nat → UInt8) (length : UInt16) (s : TwsEnv) : Prop :=
  ∃ calls, kind.handler p_buff length s = some calls ∧ ∀ c ∈ calls, c.len.toNat = length.toNat - 1

/-- The bytes that a call hands over. -/
def HandlerCall.bytes (c : HandlerCall) : List UInt8 := (List.range c.len.toNat).map c.buf

/-- A received command in memory, with anything behind it. -/
def inMemory (cmd : List UInt8) (behind : Nat → UInt8) : Nat → UInt8 := fun i => cmd[i]?.getD (behind i)

/-- The user's information is sent, and what the peer's handlers of the user get
is this information. -/
def Delivered (id : Fin twsSyncUserNum) (info : Info) (s peer : TwsEnv) (behind : Nat → UInt8) : Prop :=
  ∃ cmd s', appTwsIfSyncInfo id s = some (cmd, s') ∧ ∃ calls,
    cmd.elim (some []) (fun cmd =>
      appTwsIfSyncInfoReceivedHandler (inMemory cmd behind) (UInt16.ofNat cmd.length) peer) = some calls ∧
    (∀ c ∈ calls, c.user = id) ∧ calls.flatMap HandlerCall.bytes = info.bytes

variable {s peer : TwsEnv} {kind : Kind} {p_buff behind : Nat → UInt8} {length : UInt16} {info : Info}
  {id : Fin twsSyncUserNum}

theorem handler_eq (kind : Kind) (p_buff : Nat → UInt8) (length : UInt16) (s : TwsEnv) : kind.handler p_buff length s =
    (syncUserOf s p_buff).map fun u => if kind.registered u.2 then [callWith u.1 p_buff length] else [] := by
  cases kind <;> rfl

theorem len_eq_iff : (length - 1).toNat = length.toNat - 1 ↔ length ≠ 0 := by
  rw [UInt16.toNat_sub, ne_eq, ← UInt16.toNat_inj]
  have := length.toNat_lt
  simp
  omega

/-- A message is handled in bounds exactly if its first byte is a user and, where
this user has a handler, it is not empty. -/
theorem inBounds_iff (kind : Kind) (p_buff : Nat → UInt8) (length : UInt16) (s : TwsEnv) :
    InBounds kind p_buff length s ↔
      ∃ h : (p_buff 0).toNat < twsSyncUserNum,
        length ≠ 0 ∨ kind.registered (s.syncUser ⟨(p_buff 0).toNat, h⟩) = false := by
  unfold InBounds
  rw [handler_eq, syncUserOf]
  by_cases h : (p_buff 0).toNat < twsSyncUserNum
  · rw [dif_pos h]
    simp only [Option.map_some, Option.some.injEq, exists_eq_left', h, exists_true_left]
    cases kind.registered (s.syncUser ⟨(p_buff 0).toNat, h⟩) with
    | false => simp
    | true =>
      simp only [if_true, List.mem_singleton, forall_eq, callWith, Bool.true_eq_false, or_false]
      exact len_eq_iff
  · rw [dif_neg h]
    simp [h]

/-- Behind the number of the user the buffer starts with what was prepared. -/
theorem sent_eq {s₁ : TwsEnv} (h : prepare info s = some s₁) (userId : UInt8) :
    (userId :: s₁.twsSyncBuf.info).take (UInt16.ofNat info.bytes.length + 1).toNat = userId :: info.bytes := by
  unfold prepare at h
  split_ifs at h with hlen
  obtain rfl := Option.some.inj h
  have hlength : (UInt16.ofNat info.bytes.length + 1).toNat = info.bytes.length + 1 := by
    rw [UInt16.toNat_add, UInt16.toNat_ofNat']
    show (info.bytes.length % 65536 + 1) % 65536 = _
    have : info.bytes.length ≤ 299 := hlen
    omega
  rw [hlength, List.take_succ_cons, List.take_left]

/-- The command of a prepared information: none of an empty one. -/
theorem appTwsIfSyncInfo_eq (h : (s.syncUser id).sync_info_prepare_handler = some info) :
    if info.bytes.length ≤ infoSize then
      ∃ s', appTwsIfSyncInfo id s = some (if info.bytes = [] then none else some (UInt8.ofNat id :: info.bytes), s')
    else appTwsIfSyncInfo id s = none := by
  unfold appTwsIfSyncInfo
  simp only [h]
  by_cases hlen : info.bytes.length ≤ infoSize
  · rw [if_pos hlen]
    cases hprep : prepare info s with
    | none => exact absurd hprep (by unfold prepare; rw [dif_pos hlen]; exact Option.some_ne_none _)
    | some s₁ =>
      have hsent := sent_eq hprep (UInt8.ofNat id)
      by_cases hnil : info.bytes = []
      · simp [hnil]
      · have hpos : 0 < info.bytes.length := List.length_pos_iff.2 hnil
        have hne : UInt16.ofNat info.bytes.length ≠ 0 := by
          intro h0
          have := congrArg UInt16.toNat h0
          rw [UInt16.toNat_ofNat'] at this
          have h16 := info.length_lt
          simp at this
          omega
        simp only [hne, hnil, ne_eq, not_false_iff, if_true, if_false]
        exact ⟨_, congrArg some (Prod.ext (congrArg some hsent) rfl)⟩
  · rw [if_neg hlen]
    unfold prepare
    rw [dif_neg hlen]

theorem inMemory_zero (c : UInt8) (cmd : List UInt8) (behind : Nat → UInt8) : inMemory (c :: cmd) behind 0 = c := rfl

/-- What a call hands over of a message in memory. -/
theorem bytes_callWith (user : Fin twsSyncUserNum) (c : UInt8) (bytes : List UInt8) (behind : Nat → UInt8)
    (h : bytes.length ≤ infoSize) :
    (callWith user (inMemory (c :: bytes) behind) (UInt16.ofNat (c :: bytes).length)).bytes = bytes := by
  have hlen : (UInt16.ofNat (c :: bytes).length - 1).toNat = bytes.length := by
    rw [UInt16.toNat_sub, UInt16.toNat_ofNat', List.length_cons]
    show (65536 - 1 + (bytes.length + 1) % 65536) % 65536 = _
    have : bytes.length ≤ 299 := h
    omega
  unfold HandlerCall.bytes callWith
  dsimp only
  rw [hlen]
  apply List.ext_getElem?
  intro i
  rw [List.getElem?_map]
  by_cases hi : i < bytes.length
  · rw [List.getElem?_range hi, List.getElem?_eq_getElem hi]
    simp [inMemory, hi]
  · rw [List.getElem?_eq_none (by rw [List.length_range]; omega), List.getElem?_eq_none (by omega)]
    rfl

/-- An information arrives as it was prepared exactly if it fits into the buffer
and, unless it is empty, the peer has a handler for it. -/
theorem delivered_iff (h : (s.syncUser id).sync_info_prepare_handler = some info) (peer : TwsEnv)
    (behind : Nat → UInt8) : Delivered id info s peer behind ↔
      info.bytes.length ≤ infoSize ∧ (info.bytes = [] ∨ (peer.syncUser id).sync_info_received_handler = true) := by
  have hsend := appTwsIfSyncInfo_eq h
  by_cases hlen : info.bytes.length ≤ infoSize
  · rw [if_pos hlen] at hsend
    obtain ⟨s', hsend⟩ := hsend
    unfold Delivered
    simp only [hsend, Option.some.injEq, Prod.mk.injEq, hlen, true_and]
    by_cases hnil : info.bytes = []
    · simp [hnil]
    · have hid : (UInt8.ofNat id.val).toNat = id.val := by
        have : id.val < 7 := id.isLt
        rw [UInt8.toNat_ofNat']
        exact Nat.mod_eq_of_lt (by omega)
      have hin : (inMemory (UInt8.ofNat id.val :: info.bytes) behind 0).toNat = id.val := by
        rw [inMemory_zero, hid]
      have huser : syncUserOf peer (inMemory (UInt8.ofNat id.val :: info.bytes) behind) = some (id, peer.syncUser id) := by
        unfold syncUserOf
        rw [dif_pos (by rw [hin]; exact id.isLt)]
        have hfin : (⟨(inMemory (UInt8.ofNat id.val :: info.bytes) behind 0).toNat, by rw [hin]; exact id.isLt⟩ :
            Fin twsSyncUserNum) = id := Fin.ext hin
        rw [hfin]
      simp only [hnil, if_false, false_or]
      constructor
      · rintro ⟨_, _, ⟨rfl, rfl⟩, calls, hcalls, -, hbytes⟩
        by_contra hreg
        simp only [Option.elim, appTwsIfSyncInfoReceivedHandler, huser, Option.map_some, hreg] at hcalls
        obtain rfl := Option.some.inj hcalls
        exact hnil hbytes.symm
      · intro hreg
        refine ⟨_, _, ⟨rfl, rfl⟩, [callWith id (inMemory (UInt8.ofNat id.val :: info.bytes) behind)
          (UInt16.ofNat (UInt8.ofNat id.val :: info.bytes).length)], ?_, ?_, ?_⟩
        · simp only [Option.elim, appTwsIfSyncInfoReceivedHandler, huser, Option.map_some, hreg, if_true]
        · simp [callWith]
        · rw [List.flatMap_singleton]
          exact bytes_callWith id _ _ _ hlen
  · rw [if_neg hlen] at hsend
    unfold Delivered
    simp [hsend, hlen]

/-- Messages are handled in bounds exactly if they name a user and, where that one
has a handler, are not empty; an information arrives exactly if it fits into the
buffer and the peer has a handler for it. -/
theorem sync_info_iff (id : Fin twsSyncUserNum) (info : Info) (s peer : TwsEnv)
    (h : (s.syncUser id).sync_info_prepare_handler = some info) (behind : Nat → UInt8) :
    (∀ kind p_buff length, InBounds kind p_buff length peer ↔ ∃ h : (p_buff 0).toNat < twsSyncUserNum,
      length ≠ 0 ∨ kind.registered (peer.syncUser ⟨(p_buff 0).toNat, h⟩) = false) ∧
    (Delivered id info s peer behind ↔
      info.bytes.length ≤ infoSize ∧ (info.bytes = [] ∨ (peer.syncUser id).sync_info_received_handler = true)) :=
  ⟨fun kind p_buff length => inBounds_iff kind p_buff length peer, delivered_iff h peer behind⟩

/-- All users have all handlers, and write one byte. -/
def plainEnv : TwsEnv where
  syncUser _ := ⟨some ⟨[5], by decide⟩, true, some ⟨[6], by decide⟩, true, true⟩
  twsSyncBuf := ⟨0, .replicate infoSize 0⟩
  info_length := List.length_replicate

/-- One byte of the OTA user. -/
theorem ota_info_delivered : Delivered 1 ⟨[5], by decide⟩ plainEnv plainEnv (fun _ => 0) :=
  (sync_info_iff 1 ⟨[5], by decide⟩ plainEnv plainEnv rfl (fun _ => 0)).2.2 ⟨by decide, Or.inr rfl⟩

/-- A message of the user 7 is looked up behind the table, and an empty one is
handed over with 65535 bytes. -/
theorem unknown_user : ¬ InBounds .response (fun _ => 7) 1 plainEnv ∧
    Kind.response.handler (fun _ => 0) 0 plainEnv = some [callWith 0 (fun _ => 0) 0] ∧
    (callWith 0 (fun _ => 0) 0).len = 65535 := by
  refine ⟨?_, rfl, rfl⟩
  rintro ⟨calls, hcalls, -⟩
  cases hcalls

end Ibrt.SyncInfo
