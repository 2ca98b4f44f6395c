import LittleBuddy.Lib.Bytes
import LittleBuddy.Tota.Supervision
/-!
# The receipt of commands

`app_tota_cmd_received` of `services/tota/app_tota_cmd_handler.cpp` and the
handler of the responses to commands. Both take their lengths from the peer;
what counts is which handlers they call, and which part of the received bytes
these are given. `handlers_inside_iff` says when that is a part at all.

The received bytes are followed by whatever the memory holds there.
-/
open Bytes

namespace Tota.Cmd

/-- The `cmdHandler`s. -/
inductive CmdHandler where
  /-- `app_tota_get_cmd_response_handler`. -/
  | getCmdResponseHandler
  /-- Those of the services. -/
  | service
  deriving DecidableEq

/-- `APP_TOTA_CMD_INSTANCE_T`. -/
structure CmdEntry extends CmdInstance where
  cmdHandler : CmdHandler
  /-- `cmdRspHandler` is not `NULL`. -/
  cmdRspHandler : Bool

/-- `APP_TOTA_CMD_RET_STATUS_E`, as far as `app_tota_cmd_received` returns it. -/
inductive CmdRetStatus where
  | noError | invalidCmd | paramLenOutOfRange
  deriving DecidableEq

/-- `OP_TOTA_STRING`, `OP_TOTA_COMMAND_COUNT`. -/
abbrev opTotaString : Nat := 0x1000
abbrev opTotaCommandCount : Nat := 0x9101

/-- The sizes of `APP_TOTA_CMD_PAYLOAD_T.param` and of `APP_TOTA_CMD_RSP_T`. -/
abbrev paramSize : Nat := 656
abbrev cmdRspSize : Nat := 656

/-- A field of 16 bits. -/
def getU16 (m : Nat → UInt8) (a : Nat) : Nat := ofLe (read m a 2)

/-- The fields of an `APP_TOTA_CMD_PAYLOAD_T`, whose `param` is at 4, -/
def payloadCmdCode (m : Nat → UInt8) : Nat := getU16 m 0
def payloadParamLen (m : Nat → UInt8) : Nat := getU16 m 2
abbrev payloadParam : Nat := 4

/-- and of the `APP_TOTA_CMD_RSP_T` at `a`, whose `rspData` is 6 behind it. -/
def rspCmdCodeToRsp (m : Nat → UInt8) (a : Nat) : Nat := getU16 m a
def rspCmdRetStatus (m : Nat → UInt8) (a : Nat) : Nat := getU16 m (a + 2)
def rspRspDataLen (m : Nat → UInt8) (a : Nat) : Nat := getU16 m (a + 4)
abbrev rspRspData : Nat := 6

/-- A call of a handler: the instance, where its parameter is in the received
bytes, and how long. The instance `none` is the one behind a `NULL`. -/
inductive Invocation where
  | cmdHandler (pInstance : Option CmdEntry) (ptrParam paramLen : Nat)
  | cmdRspHandler (pInstance : Option CmdEntry) (retStatus ptrParam paramLen : Nat)

/-- What was done when a command came in. -/
structure Received where
  status : CmdRetStatus
  env : CmdHandlerEnv
  invoked : List Invocation

section

variable (table : List CmdEntry) (ticksToMs : UInt32 → Nat)

/-- `app_tota_cmd_handler_get_entry_pointer_from_cmd_code`. -/
def getEntryPointerFromCmdCode (cmdCode : Nat) : Option CmdEntry := table.find? fun inst => inst.cmdCode == cmdCode

/-- `app_tota_get_cmd_response_handler`, of the parameter at `ptrParam`. -/
def cmdResponseHandler (m : Nat → UInt8) (ptrParam paramLen : Nat) (t₀ t₁ : UInt32) (env : CmdHandlerEnv) :
    Option (CmdHandlerEnv × List Invocation) :=
  if paramLen > cmdRspSize then some (env, [])
  else if env.timeoutSupervisorCount = 0 then some (env, [])
  else
    match getEntryIndexFromCmdCode (table.map CmdEntry.toCmdInstance) (rspCmdCodeToRsp m ptrParam) with
    | none => some (env, [])
    | some entryIndex =>
      (removeWaitingRspTimeoutSupervision ticksToMs entryIndex t₀ t₁ env).map fun env =>
        let ptCmdInstance := table[entryIndex]?
        if ptCmdInstance.any CmdEntry.cmdRspHandler then
          (env, [.cmdRspHandler ptCmdInstance (rspCmdRetStatus m ptrParam) (ptrParam + rspRspData) (rspRspDataLen m ptrParam)])
        else (env, [])

/-- `app_tota_cmd_received`, which only traces its `dataLength`. -/
def cmdReceived (ptrData : Nat → UInt8) (_dataLength : Nat) (t₀ t₁ : UInt32) (env : CmdHandlerEnv) : Option Received :=
  let cmdCode := payloadCmdCode ptrData
  let paramLen := payloadParamLen ptrData
  if cmdCode ≥ opTotaCommandCount ∨ cmdCode < opTotaString then some ⟨.invalidCmd, env, []⟩
  else if paramLen > paramSize then some ⟨.paramLenOutOfRange, env, []⟩
  else
    let pInstance := getEntryPointerFromCmdCode table cmdCode
    let invoked := .cmdHandler pInstance payloadParam paramLen
    match pInstance.map CmdEntry.cmdHandler with
    | some .getCmdResponseHandler =>
      (cmdResponseHandler table ticksToMs ptrData payloadParam paramLen t₀ t₁ env).map fun (env, more) =>
        ⟨.noError, env, invoked :: more⟩
    | _ => some ⟨.noError, env, [invoked]⟩

end

/-! ## Which calls are safe -/

/-- The handler is one of the table, and its parameter lies in the `dataLength`
received bytes; that of a response handler also in the parameter of the response. -/
def Invocation.Inside (table : List CmdEntry) (dataLength paramLen : Nat) : Invocation → Prop
  | .cmdHandler pInstance ptr len => (∃ inst ∈ table, pInstance = some inst) ∧ ptr + len ≤ dataLength
  | .cmdRspHandler pInstance _ ptr len =>
    (∃ inst ∈ table, pInstance = some inst) ∧ ptr + len ≤ dataLength ∧ ptr + len ≤ payloadParam + paramLen

/-- A response that no handler is called for, or whose data lies in the parameter. -/
def ResponseFits (table : List CmdEntry) (ptrData : Nat → UInt8) (env : CmdHandlerEnv) : Prop :=
  env.timeoutSupervisorCount = 0 ∨
    ∀ target, getEntryPointerFromCmdCode table (rspCmdCodeToRsp ptrData payloadParam) = some target →
      target.cmdRspHandler = true → rspRspData + rspRspDataLen ptrData payloadParam ≤ payloadParamLen ptrData

/-- A command that is refused, or else registered, with all of its parameter
received; a response also fits. -/
def WellFormed (table : List CmdEntry) (ptrData : Nat → UInt8) (dataLength : Nat) (env : CmdHandlerEnv) : Prop :=
  payloadCmdCode ptrData ≥ opTotaCommandCount ∨ payloadCmdCode ptrData < opTotaString ∨
    payloadParamLen ptrData > paramSize ∨
    ∃ inst, getEntryPointerFromCmdCode table (payloadCmdCode ptrData) = some inst ∧
      payloadParam + payloadParamLen ptrData ≤ dataLength ∧
      (inst.cmdHandler = .getCmdResponseHandler → ResponseFits table ptrData env)

variable {table : List CmdEntry} {ticksToMs : UInt32 → Nat} {env : CmdHandlerEnv} {m : Nat → UInt8} {cmdCode : Nat}

/-- The index of a command is that of its instance. -/
theorem entry_of_index :
    getEntryPointerFromCmdCode table cmdCode =
      (getEntryIndexFromCmdCode (table.map CmdEntry.toCmdInstance) cmdCode).bind fun i => table[i]? := by
  unfold getEntryPointerFromCmdCode getEntryIndexFromCmdCode
  rw [List.findIdx?_map]
  induction table with
  | nil => rfl
  | cons inst table ih =>
    rw [List.find?_cons, List.findIdx?_cons]
    by_cases h : inst.cmdCode == cmdCode
    · simp [h]
    · simp only [h, Function.comp]
      rw [ih]
      simp [Option.bind_map, Function.comp_def]

theorem mem_of_entry {inst : CmdEntry} (h : getEntryPointerFromCmdCode table cmdCode = some inst) : inst ∈ table :=
  List.mem_of_find?_eq_some h

theorem remove_some (h : env.timeoutSupervisorCount ≠ 0) (i : Nat) (t₀ t₁ : UInt32) :
    ∃ env', removeWaitingRspTimeoutSupervision ticksToMs i t₀ t₁ env = some env' := by
  unfold removeWaitingRspTimeoutSupervision
  rw [if_pos (Nat.pos_of_ne_zero h)]
  split
  · exact ⟨_, rfl⟩
  · exact ⟨_, rfl⟩

/-- A response calls one handler at most: that of the command it is for. -/
theorem cmdResponseHandler_cases (table : List CmdEntry) (ticksToMs : UInt32 → Nat) (env : CmdHandlerEnv)
    (m : Nat → UInt8) {paramLen : Nat} (hlen : paramLen ≤ cmdRspSize) (a : Nat) (t₀ t₁ : UInt32) :
    ∃ env' more, cmdResponseHandler table ticksToMs m a paramLen t₀ t₁ env = some (env', more) ∧
      ((more = [] ∧ (env.timeoutSupervisorCount = 0 ∨
        ∀ target, getEntryPointerFromCmdCode table (rspCmdCodeToRsp m a) = some target → target.cmdRspHandler = false)) ∨
      ∃ target, env.timeoutSupervisorCount ≠ 0 ∧ getEntryPointerFromCmdCode table (rspCmdCodeToRsp m a) = some target ∧
        target.cmdRspHandler = true ∧
        more = [.cmdRspHandler (some target) (rspCmdRetStatus m a) (a + rspRspData) (rspRspDataLen m a)]) := by
  unfold cmdResponseHandler
  rw [if_neg (Nat.not_lt.2 hlen)]
  by_cases hcount : env.timeoutSupervisorCount = 0
  · rw [if_pos hcount]
    exact ⟨env, [], rfl, .inl ⟨rfl, .inl hcount⟩⟩
  · rw [if_neg hcount, entry_of_index]
    cases hi : getEntryIndexFromCmdCode (table.map CmdEntry.toCmdInstance) (rspCmdCodeToRsp m a) with
    | none => exact ⟨env, [], rfl, .inl ⟨rfl, .inr (by simp)⟩⟩
    | some i =>
      obtain ⟨env', henv⟩ : ∃ env', removeWaitingRspTimeoutSupervision ticksToMs i t₀ t₁ env = some env' :=
        remove_some hcount i t₀ t₁
      simp only [henv, Option.map_some, Option.bind_some]
      by_cases hrsp : table[i]?.any CmdEntry.cmdRspHandler = true
      · obtain ⟨target, htarget, hh⟩ := (Option.any_eq_true ..).1 hrsp
        rw [if_pos hrsp]
        exact ⟨env', _, rfl, .inr ⟨target, hcount, htarget, hh, by rw [htarget]⟩⟩
      · rw [if_neg hrsp]
        refine ⟨env', [], rfl, .inl ⟨rfl, .inr fun target htarget => ?_⟩⟩
        simpa [htarget] using hrsp

/-- A response whose parameter was received calls a handler with a part of it
exactly if it fits. -/
theorem response_inside_iff (table : List CmdEntry) (ticksToMs : UInt32 → Nat) (env : CmdHandlerEnv)
    {ptrData : Nat → UInt8} {dataLength : Nat} (hlen : payloadParamLen ptrData ≤ cmdRspSize)
    (hdata : payloadParam + payloadParamLen ptrData ≤ dataLength) (t₀ t₁ : UInt32) :
    ∃ env' more,
      cmdResponseHandler table ticksToMs ptrData payloadParam (payloadParamLen ptrData) t₀ t₁ env = some (env', more) ∧
      ((∀ call ∈ more, call.Inside table dataLength (payloadParamLen ptrData)) ↔ ResponseFits table ptrData env) := by
  obtain ⟨env', more, hr, ⟨rfl, hnone⟩ | ⟨target, hcount, htarget, hh, rfl⟩⟩ :=
    cmdResponseHandler_cases table ticksToMs env ptrData hlen payloadParam t₀ t₁
  · refine ⟨env', [], hr, iff_of_true (by simp) ?_⟩
    rcases hnone with hcount | hnone
    · exact .inl hcount
    · refine .inr fun target htarget hh => ?_
      rw [hnone target htarget] at hh
      cases hh
  · refine ⟨env', _, hr, ?_⟩
    simp only [List.mem_singleton, forall_eq, Invocation.Inside]
    constructor
    · rintro ⟨-, -, hparam⟩
      refine .inr fun target' htarget' _ => ?_
      omega
    · rintro (hzero | hfits)
      · exact absurd hzero hcount
      · have hle := hfits target htarget hh
        exact ⟨⟨target, mem_of_entry htarget, rfl⟩, by omega, by omega⟩

/-- The handlers that a received command calls are registered and keep to the
received bytes exactly if the command is well formed: the length of the data is
never compared with the lengths in it, and neither is the result of the lookup
with `NULL`. -/
theorem handlers_inside_iff (table : List CmdEntry) (ticksToMs : UInt32 → Nat) (ptrData : Nat → UInt8) (dataLength : Nat)
    (t₀ t₁ : UInt32) (env : CmdHandlerEnv) :
    (∃ r, cmdReceived table ticksToMs ptrData dataLength t₀ t₁ env = some r ∧
      ∀ call ∈ r.invoked, call.Inside table dataLength (payloadParamLen ptrData)) ↔
    WellFormed table ptrData dataLength env := by
  unfold cmdReceived WellFormed
  by_cases hcode : payloadCmdCode ptrData ≥ opTotaCommandCount ∨ payloadCmdCode ptrData < opTotaString
  · simp only [if_pos hcode]
    refine iff_of_true ⟨_, rfl, by simp⟩ ?_
    rcases hcode with hcode | hcode
    · exact .inl hcode
    · exact .inr (.inl hcode)
  by_cases hlen : payloadParamLen ptrData > paramSize
  · simp only [if_neg hcode, if_pos hlen]
    exact iff_of_true ⟨_, rfl, by simp⟩ (.inr (.inr (.inl hlen)))
  rw [not_or] at hcode
  simp only [hcode.1, hcode.2, hlen, false_or, if_false]
  cases hinst : getEntryPointerFromCmdCode table (payloadCmdCode ptrData) with
  | none =>
    -- the handler is read through `NULL`
    simp [Invocation.Inside]
  | some inst =>
    have hcall : Invocation.Inside table dataLength (payloadParamLen ptrData)
        (.cmdHandler (some inst) payloadParam (payloadParamLen ptrData)) ↔
          payloadParam + payloadParamLen ptrData ≤ dataLength :=
      and_iff_right ⟨inst, mem_of_entry hinst, rfl⟩
    simp only [Option.map_some, Option.some.injEq, exists_eq_left']
    cases hh : inst.cmdHandler with
    | service => simp [hcall]
    | getCmdResponseHandler =>
      by_cases hdata : payloadParam + payloadParamLen ptrData ≤ dataLength
      · obtain ⟨env', more, hr, hmore⟩ := response_inside_iff table ticksToMs env
          (Nat.le_of_not_lt hlen) hdata t₀ t₁
        simp [hr, hcall, hmore, hdata]
      · refine iff_of_false ?_ fun h => hdata h.1
        rintro ⟨r, hr, hcalls⟩
        obtain ⟨⟨env', more⟩, -, rfl⟩ := Option.map_eq_some_iff.1 hr
        exact hdata (hcall.1 (hcalls _ List.mem_cons_self))

/-- An `OP_TOTA_ECHO_TEST_CMD` of four bytes that announces 100 more: the handler
gets all 100, of which none was received. -/
theorem param_not_received :
    ∃ table : List CmdEntry, table = [⟨⟨0x6101, false, 0⟩, .service, false⟩] ∧
      cmdReceived table UInt32.toNat (bufferOf [0x01, 0x61, 100, 0]) 4 0 0 cmdHandlerInit =
        some ⟨.noError, cmdHandlerInit, [.cmdHandler table.head? 4 100]⟩ ∧
      ¬ ∃ r, cmdReceived table UInt32.toNat (bufferOf [0x01, 0x61, 100, 0]) 4 0 0 cmdHandlerInit = some r ∧
        ∀ call ∈ r.invoked, call.Inside table 4 (payloadParamLen (bufferOf [0x01, 0x61, 100, 0])) := by
  refine ⟨_, rfl, rfl, ?_⟩
  rintro ⟨r, hr, hcalls⟩
  cases hr
  have hin := hcalls _ List.mem_cons_self
  exact absurd hin.2 (by decide)

end Tota.Cmd
