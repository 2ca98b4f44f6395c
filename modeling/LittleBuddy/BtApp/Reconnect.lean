import LittleBuddy.Lib.Runs
import Mathlib.Tactic.Common
/-!
# Reconnection of the profiles

`services/bt_app/app_bt.cpp`, for one phone and without IBRT, HSP and automatic
connection of other profiles: the profile managers for HFP and A2DP and the
reconnect timer that they share. Next to the manager the system counts the
connection attempts that have not ended yet.
-/
open Runs

namespace BtApp.Reconnect

/-! ## The code -/

/-- `bt_profile_connect_status`. -/
inductive ConnectStatus
  | unknow
  | success
  | failure
  deriving DecidableEq, Repr

/-- `bt_profile_reconnect_mode`. -/
inductive ReconnectMode
  | null
  | openreconnecting
  | reconnecting
  | reconnectPending
  deriving DecidableEq, Repr

/-- `btdevice_profile`, without the codec. -/
structure Profile where
  hfp_act : Bool
  hsp_act : Bool
  a2dp_act : Bool

/-- `app_bt_profile_manager`, with whether `connect_timer` runs, and the attempts to
connect that were asked for and have not ended. -/
structure Manager where
  has_connected : Bool
  hfp_connect : ConnectStatus
  a2dp_connect : ConnectStatus
  reconnect_mode : ReconnectMode
  saved_reconnect_mode : ReconnectMode
  reconnect_cnt : Nat
  timer : Bool
  hf_links : Nat
  a2dp_links : Nat
  deriving DecidableEq

/-- `APP_BT_PROFILE_OPENNING_RECONNECT_RETRY_LIMIT_CNT`. -/
abbrev openningRetryLimit : Nat := 2

/-- `APP_BT_PROFILE_RECONNECT_RETRY_LIMIT_CNT`. -/
abbrev retryLimit : Nat := 15

/-- `A2DP_CONN_CLOSED`. -/
abbrev a2dpConnClosed : Nat := 10

/-- `app_bt_profile_active_store_ptr_get`: "always need connect a2dp and hfp". -/
def activeStorePtrGet : Option Profile → Profile
  | some profile => { profile with hfp_act := true, a2dp_act := true }
  | none => ⟨true, false, true⟩

/-- `app_bt_profile_connect_manager_open`. -/
def managerOpen : Manager where
  has_connected := false
  hfp_connect := .unknow
  a2dp_connect := .unknow
  reconnect_mode := .null
  saved_reconnect_mode := .null
  reconnect_cnt := 0
  timer := false
  hf_links := 0
  a2dp_links := 0

/-- `app_bt_HF_CreateServiceLink`. -/
def hfCreateServiceLink (m : Manager) : Manager := { m with hf_links := m.hf_links + 1 }

/-- `app_bt_A2DP_OpenStream`. -/
def a2dpOpenStream (m : Manager) : Manager := { m with a2dp_links := m.a2dp_links + 1 }

/-- `app_bt_restore_reconnecting_idle_mode`. -/
def restoreReconnectingIdleMode (m : Manager) : Manager := { m with reconnect_mode := .null }

/-- `++reconnect_cnt`, in 16 bits. -/
def countUp (m : Manager) : Manager := { m with reconnect_cnt := (m.reconnect_cnt + 1) % 65536 }

/-- `app_bt_profile_reconnect_pending`, and what its callers do with the result. -/
def reconnectPending (callActive : Bool) (m : Manager) : Manager :=
  if callActive then { m with reconnect_mode := .reconnectPending } else { m with timer := true }

/-- The reasons of a lost link, with and without `ENHANCED_STACK`. -/
def hfLinkLost (enhanced : Bool) (disc_reason disc_reason_saved : Nat) : Bool :=
  if enhanced then disc_reason = 8 ∨ disc_reason_saved = 8 ∨ disc_reason = 4 ∨ disc_reason_saved = 4
  else disc_reason = 8 ∨ disc_reason_saved = 8 ∨ disc_reason = 0 ∨ disc_reason_saved = 0

def a2dpLinkLost (enhanced : Bool) (discReason discReason_saved : Nat) : Bool :=
  if enhanced then discReason = 8 ∨ discReason = 4
  else discReason = 8 ∨ discReason_saved = 8 ∨ discReason_saved = 0

/-- The last part of both managers: whether the phone is connected at all. -/
def updateHasConnected (m : Manager) : Manager :=
  { m with has_connected := m.hfp_connect = .success ∨ m.a2dp_connect = .success }

/-- `BTIF_HF_EVENT_SERVICE_CONNECTED`. -/
def hfConnected (plf : Profile) (m : Manager) : Manager :=
  let m := { m with hfp_connect := .success, saved_reconnect_mode := .null, reconnect_cnt := 0 }
  match m.reconnect_mode with
  | .reconnecting => if plf.a2dp_act ∧ m.a2dp_connect ≠ .success then a2dpOpenStream m else m
  | _ => m

/-- `BTIF_HF_EVENT_SERVICE_DISCONNECTED`. -/
def hfDisconnected (lost callActive : Bool) (m : Manager) : Manager :=
  let m := { m with hfp_connect := .failure }
  match m.reconnect_mode with
  | .openreconnecting =>
    let m := countUp m
    if m.reconnect_cnt < openningRetryLimit then { m with hfp_connect := .unknow, timer := true } else m
  | .reconnecting =>
    let m := countUp m
    if m.reconnect_cnt < retryLimit then { m with timer := true } else restoreReconnectingIdleMode m
  | _ =>
    if lost then reconnectPending callActive { m with reconnect_mode := .reconnecting }
    else { m with hfp_connect := .unknow }

/-- What `app_bt_profile_connect_manager_hf` does after the event. -/
def hfFinish (plf : Profile) (m : Manager) : Manager :=
  match m.reconnect_mode with
  | .reconnecting =>
    let reconnect_hfp_proc_final := m.hfp_connect = .success
    -- false to begin with, and nothing makes it true while A2DP is connected
    let reconnect_a2dp_proc_final := m.a2dp_connect ≠ .success ∧ ¬ (plf.hfp_act ∧ plf.a2dp_act)
    if reconnect_hfp_proc_final ∧ reconnect_a2dp_proc_final then restoreReconnectingIdleMode m else m
  | .openreconnecting =>
    let opening_hfp_proc_final := ¬ (plf.hfp_act ∧ m.hfp_connect = .unknow)
    let opening_a2dp_proc_final := ¬ (plf.a2dp_act ∧ m.a2dp_connect = .unknow)
    let m :=
      if opening_hfp_proc_final ∧ opening_a2dp_proc_final then
        restoreReconnectingIdleMode { m with saved_reconnect_mode := .openreconnecting }
      else if m.hfp_connect = .failure then
        let m := { m with saved_reconnect_mode := .openreconnecting }
        if m.reconnect_cnt ≥ openningRetryLimit then restoreReconnectingIdleMode m else m
      else m
    -- of one device there is no other one to go on with
    if plf.hfp_act ∧ m.hfp_connect = .success ∧ plf.a2dp_act ∧ ¬ opening_a2dp_proc_final then a2dpOpenStream m else m
  | _ => m

/-- The events of the HFP channel. -/
inductive HfEvent
  | connected
  | disconnected (disc_reason disc_reason_saved : Nat)

/-- `app_bt_profile_connect_manager_hf`, with the profiles of the remote device and of `rmt_addr`. -/
def connectManagerHf (enhanced callActive : Bool) (plf plf1 : Profile) (e : HfEvent) (m : Manager) : Manager :=
  let m := { m with timer := false }
  let m := match e with
    | .connected => hfConnected plf m
    | .disconnected reason saved => hfDisconnected (hfLinkLost enhanced reason saved) callActive m
  updateHasConnected (hfFinish plf1 m)

/-- `BTIF_A2DP_EVENT_STREAM_OPEN`, by whether the phone is creating the HFP channel. -/
def a2dpOpened (plf : Profile) (creating : Bool) (m : Manager) : Manager :=
  let m := { m with a2dp_connect := .success, reconnect_cnt := 0 }
  match m.reconnect_mode with
  | .reconnecting =>
    if plf.hfp_act ∧ m.hfp_connect ≠ .success ∧ ¬ creating then hfCreateServiceLink m else m
  | _ => m

/-- `BTIF_A2DP_EVENT_STREAM_CLOSED`. -/
def a2dpClosed (plf : Profile) (lost callActive : Bool) (m : Manager) : Manager :=
  let m := { m with a2dp_connect := .failure }
  match m.reconnect_mode with
  | .openreconnecting =>
    let m := countUp m
    if m.reconnect_cnt < openningRetryLimit then { m with a2dp_connect := .unknow, timer := true } else m
  | .reconnecting =>
    let m := countUp m
    if m.reconnect_cnt < retryLimit then { m with timer := true } else restoreReconnectingIdleMode m
  | _ =>
    if lost ∧ plf.a2dp_act ∧ ¬ plf.hfp_act ∧ ¬ plf.hsp_act then
      reconnectPending callActive { m with reconnect_mode := .reconnecting }
    else { m with a2dp_connect := .unknow }

/-- What `app_bt_profile_connect_manager_a2dp` does after the event. -/
def a2dpFinish (plf : Profile) (creating : Bool) (m : Manager) : Manager :=
  match m.reconnect_mode with
  | .reconnecting =>
    if m.hfp_connect ≠ .failure ∧ m.a2dp_connect ≠ .failure then restoreReconnectingIdleMode m else m
  | .openreconnecting =>
    let opening_hfp_proc_final := ¬ (plf.hfp_act ∧ m.hfp_connect = .unknow)
    let opening_a2dp_proc_final := ¬ (plf.a2dp_act ∧ m.a2dp_connect = .unknow)
    let m :=
      if (opening_hfp_proc_final ∧ opening_a2dp_proc_final) ∨ m.a2dp_connect = .failure then
        restoreReconnectingIdleMode m
      else m
    if plf.a2dp_act ∧ m.a2dp_connect = .success ∧ plf.hfp_act ∧ ¬ opening_hfp_proc_final ∧ ¬ creating then
      hfCreateServiceLink m
    else m
  | _ => m

/-- The events of the A2DP stream. -/
inductive A2dpEvent
  | streamOpen
  | streamClosed (subevt discReason discReason_saved : Nat)

/-- `app_bt_profile_connect_manager_a2dp`. -/
def connectManagerA2dp (enhanced callActive : Bool) (plf : Profile) (creating : Bool) (e : A2dpEvent) (m : Manager) :
    Manager :=
  let m := { m with timer := false }
  match e with
  | .streamOpen =>
    -- the timer is stopped all the same
    if m.a2dp_connect = .success then m
    else updateHasConnected (a2dpFinish plf creating (a2dpOpened plf creating m))
  | .streamClosed subevt reason saved =>
    if subevt ≠ a2dpConnClosed then m
    else updateHasConnected (a2dpFinish plf creating (a2dpClosed plf (a2dpLinkLost enhanced reason saved) callActive m))

/-- `app_bt_profile_reconnect_handler`; `connect_timer_cb` is never set in this configuration. -/
def reconnectHandler (pendCons : Bool) (plf : Profile) (m : Manager) : Manager :=
  if pendCons then
    { (if m.reconnect_cnt < openningRetryLimit then countUp m else m) with timer := true }
  else if plf.hfp_act ∧ m.hfp_connect ≠ .success then hfCreateServiceLink m
  else if plf.a2dp_act ∧ m.a2dp_connect ≠ .success then a2dpOpenStream m
  else m

/-- `app_bt_profile_connect_manager_opening_reconnect`, with a paired phone and no pending connection. -/
def openingReconnect (plf : Profile) (m : Manager) : Manager :=
  let m := { m with reconnect_mode := .openreconnecting, reconnect_cnt := 0 }
  if plf.hfp_act then hfCreateServiceLink m
  else if plf.a2dp_act then a2dpOpenStream m
  else m

/-- `app_bt_connectable_mode_stop_reconnecting_handler`. -/
def stopReconnecting (m : Manager) : Manager :=
  if m.reconnect_mode ≠ .null then
    { m with hfp_connect := .failure, reconnect_mode := .null, saved_reconnect_mode := .null, reconnect_cnt := 0,
             timer := false }
  else m

/-! ## The system -/

/-- The manager, and the HFP connections that the phone is creating. -/
structure Sys extends Manager where
  remote_links : Nat

/-- Whose attempt to connect an HFP event ends, if any. -/
inductive Ends
  | nothing
  | own
  | remote
  deriving DecidableEq

/-- What happens: the events of the two profiles with the record of the phone, the
timer, an HFP connection by the phone, and the two requests of the application. -/
inductive Event
  | hf (e : HfEvent) (ends : Ends) (record record1 : Option Profile)
  | a2dp (e : A2dpEvent) (ends creating : Bool) (record : Option Profile)
  | timer (pendCons : Bool) (record : Option Profile)
  | remoteHf
  | opening (record : Option Profile)
  | stop

/-- The attempt that an HFP event ends. -/
def endHf (s : Sys) : Ends → Option Sys
  | .nothing => some s
  | .own => if s.hf_links = 0 then none else some { s with hf_links := s.hf_links - 1 }
  | .remote => if s.remote_links = 0 then none else some { s with remote_links := s.remote_links - 1 }

/-- The attempt that an A2DP event ends. -/
def endA2dp (s : Sys) (ends : Bool) : Option Sys :=
  if ends then if s.a2dp_links = 0 then none else some { s with a2dp_links := s.a2dp_links - 1 } else some s

/-- One event. `hfp_disconnected_ind_handler` clears the call of the phone before it
calls the manager, so no call is active there. -/
def step (enhanced : Bool) : Event → Sys → Option Sys
  | .hf e ends record record1, s => (endHf s ends).map fun s =>
    { s with toManager := connectManagerHf enhanced false (activeStorePtrGet record) (activeStorePtrGet record1) e s.toManager }
  | .a2dp e ends creating record, s => (endA2dp s ends).bind fun s =>
    if creating ∧ s.remote_links = 0 then none
    else some { s with toManager := connectManagerA2dp enhanced false (activeStorePtrGet record) creating e s.toManager }
  | .timer pendCons record, s =>
    if s.timer then
      some { s with toManager := reconnectHandler pendCons (activeStorePtrGet record) { s.toManager with timer := false } }
    else none
  | .remoteHf, s => some { s with remote_links := s.remote_links + 1 }
  | .opening record, s =>
    -- only while there is no link at all
    if s.hfp_connect = .success ∨ s.a2dp_connect = .success then none
    else some { s with toManager := openingReconnect (activeStorePtrGet record) s.toManager }
  | .stop, s => some { s with toManager := stopReconnecting s.toManager }

/-- After the power-on initialisation. -/
def Init (s : Sys) : Prop := s.toManager = managerOpen ∧ s.remote_links = 0

/-- The manager reconnects. -/
def Active (s : Manager) : Prop := s.reconnect_mode = .reconnecting ∨ s.reconnect_mode = .openreconnecting

instance (s : Manager) : Decidable (Active s) := inferInstanceAs (Decidable (_ ∨ _))

/-- The attempts that have not ended. -/
def Sys.attempts (s : Sys) : Nat := s.hf_links + s.a2dp_links + s.remote_links

/-- What the claim says of a state: a reconnection has its timer or an attempt, and
ends when both profiles are connected. -/
structure Alive (s : Sys) : Prop where
  moving : Active s.toManager → s.timer = true ∨ 0 < s.attempts
  ended : s.hfp_connect = .success → s.a2dp_connect = .success → s.reconnect_mode = .null

/-- The manager for A2DP returns early, without a look at the mode. -/
def ReturnsEarly : A2dpEvent → Manager → Prop
  | .streamOpen, m => m.a2dp_connect = .success
  | .streamClosed subevt _ _, _ => subevt ≠ a2dpConnClosed

instance (e : A2dpEvent) (m : Manager) : Decidable (ReturnsEarly e m) := by
  cases e <;> unfold ReturnsEarly <;> infer_instance

/-- HFP does not connect behind A2DP in a reconnection, and the A2DP manager returns
early only outside of a reconnection, or while an attempt is left. -/
def Covered : Event → Sys → Prop
  | .hf .connected _ _ _, s => s.reconnect_mode = .reconnecting → s.a2dp_connect ≠ .success
  | .a2dp e ends _ _, s => ReturnsEarly e s.toManager → Active s.toManager → ends.toNat < s.attempts
  | _, _ => True

instance (e : Event) (s : Sys) : Decidable (Covered e s) := by
  unfold Covered
  split <;> infer_instance

/-! ## Every handler goes on or ends the reconnection -/

@[simp] theorem activeStorePtrGet_hfp (record : Option Profile) : (activeStorePtrGet record).hfp_act = true := by
  cases record <;> rfl

@[simp] theorem activeStorePtrGet_a2dp (record : Option Profile) : (activeStorePtrGet record).a2dp_act = true := by
  cases record <;> rfl

/-- What holds between the events: the claim, and that no reconnection is pending
on a call. -/
structure Inv (s : Sys) : Prop extends Alive s where
  no_pending : s.reconnect_mode ≠ .reconnectPending

/-- What a handler leaves behind, with `r` connections that the phone is creating:
no reconnection, or one that goes on. -/
def Goes (r : Nat) (m : Manager) : Prop :=
  m.reconnect_mode = .null ∨
    (Active m ∧ (m.timer = true ∨ 0 < m.hf_links + m.a2dp_links + r) ∧
      ¬ (m.hfp_connect = .success ∧ m.a2dp_connect = .success))

variable {m : Manager} {s s' : Sys} {r : Nat} {enhanced : Bool} {record record1 : Option Profile}

theorem Inv.of_goes (h : Goes s.remote_links s.toManager) : Inv s := by
  rcases h with hnull | ⟨hactive, hmoving, hnot⟩
  · refine ⟨⟨?_, ?_⟩, ?_⟩
    · intro hactive
      simp [Active, hnull] at hactive
    · exact fun _ _ => hnull
    · simp [hnull]
  · refine ⟨⟨fun _ => hmoving, ?_⟩, ?_⟩
    · exact fun h₁ h₂ => absurd ⟨h₁, h₂⟩ hnot
    · intro hpending
      simp [Active, hpending] at hactive

theorem Inv.goes (h : Inv s) : Goes s.remote_links s.toManager := by
  cases hmode : s.reconnect_mode with
  | null => exact .inl hmode
  | reconnectPending => exact absurd hmode h.no_pending
  | openreconnecting | reconnecting =>
    have hactive : Active s.toManager := by simp [Active, hmode]
    refine .inr ⟨hactive, h.moving hactive, ?_⟩
    rintro ⟨h₁, h₂⟩
    simp [h.ended h₁ h₂] at hmode

@[simp] theorem goes_updateHasConnected : Goes r (updateHasConnected m) ↔ Goes r m := Iff.rfl

/-- HFP connects: in a reconnection A2DP is next, unless it is known already. -/
theorem hfConnected_goes (hmode : m.reconnect_mode ≠ .reconnectPending)
    (hcov : m.reconnect_mode = .reconnecting → m.a2dp_connect ≠ .success) :
    Goes r (hfFinish (activeStorePtrGet record1) (hfConnected (activeStorePtrGet record) m)) := by
  cases h : m.reconnect_mode with
  | null =>
    left
    simp [hfConnected, hfFinish, h]
  | reconnectPending => exact absurd h hmode
  | reconnecting =>
    -- the attempt for A2DP is outstanding
    right
    have hne := hcov h
    simp only [hfConnected, hfFinish, h, activeStorePtrGet_a2dp, activeStorePtrGet_hfp, ne_eq, hne,
      not_false_eq_true, if_true, a2dpOpenStream, and_self, not_true_eq_false, and_false, if_false, Active]
    exact ⟨.inl trivial, .inr (by omega), trivial⟩
  | openreconnecting =>
    by_cases hun : m.a2dp_connect = .unknow
    · right
      have hpos : 0 < m.hf_links + (m.a2dp_links + 1) + r := by omega
      simp [hfConnected, hfFinish, h, hun, a2dpOpenStream, Active, hpos]
    · left
      simp [hfConnected, hfFinish, h, hun, restoreReconnectingIdleMode]

/-- HFP disconnects: the timer starts, or the tries are used up. -/
theorem hfDisconnected_goes (hmode : m.reconnect_mode ≠ .reconnectPending) {lost : Bool} :
    Goes r (hfFinish (activeStorePtrGet record1) (hfDisconnected lost false m)) := by
  cases h : m.reconnect_mode with
  | reconnectPending => exact absurd h hmode
  | null =>
    cases lost with
    | true =>
      right
      simp [hfDisconnected, hfFinish, h, reconnectPending, Active]
    | false =>
      left
      simp [hfDisconnected, hfFinish, h]
  | reconnecting =>
    by_cases hcnt : (m.reconnect_cnt + 1) % 65536 < retryLimit
    · right
      simp [hfDisconnected, hfFinish, h, countUp, hcnt, Active]
    · left
      simp [hfDisconnected, hfFinish, h, countUp, hcnt, restoreReconnectingIdleMode]
  | openreconnecting =>
    by_cases hcnt : (m.reconnect_cnt + 1) % 65536 < openningRetryLimit
    · right
      simp [hfDisconnected, hfFinish, h, countUp, hcnt, Active]
    · left
      have hge : openningRetryLimit ≤ (m.reconnect_cnt + 1) % 65536 := Nat.not_lt.1 hcnt
      by_cases hun : m.a2dp_connect = .unknow
      · simp [hfDisconnected, hfFinish, h, countUp, hcnt, hge, hun, restoreReconnectingIdleMode]
      · simp [hfDisconnected, hfFinish, h, countUp, hcnt, hun, restoreReconnectingIdleMode]

/-- A2DP opens: in a reconnection HFP is next, unless the phone is creating it. -/
theorem a2dpOpened_goes (hmode : m.reconnect_mode ≠ .reconnectPending) {creating : Bool} (hcreating : creating = true → 0 < r) :
    Goes r (a2dpFinish (activeStorePtrGet record) creating (a2dpOpened (activeStorePtrGet record) creating m)) := by
  cases h : m.reconnect_mode with
  | reconnectPending => exact absurd h hmode
  | null =>
    left
    simp [a2dpOpened, a2dpFinish, h]
  | reconnecting =>
    cases hhfp : m.hfp_connect with
    | success | unknow =>
      left
      cases creating <;> simp [a2dpOpened, a2dpFinish, h, hhfp, hfCreateServiceLink, restoreReconnectingIdleMode]
    | failure =>
      right
      cases creating with
      | false =>
        have hpos : 0 < m.hf_links + 1 + m.a2dp_links + r := by omega
        simp [a2dpOpened, a2dpFinish, h, hhfp, hfCreateServiceLink, Active, hpos]
      | true =>
        have hpos : 0 < m.hf_links + m.a2dp_links + r := Nat.add_pos_right _ (hcreating rfl)
        simp [a2dpOpened, a2dpFinish, h, hhfp, Active, hpos]
  | openreconnecting =>
    cases hhfp : m.hfp_connect with
    | success | failure =>
      left
      simp [a2dpOpened, a2dpFinish, h, hhfp, restoreReconnectingIdleMode]
    | unknow =>
      right
      cases creating with
      | false =>
        have hpos : 0 < m.hf_links + 1 + m.a2dp_links + r := by omega
        simp [a2dpOpened, a2dpFinish, h, hhfp, hfCreateServiceLink, Active, hpos]
      | true =>
        have hpos : 0 < m.hf_links + m.a2dp_links + r := Nat.add_pos_right _ (hcreating rfl)
        simp [a2dpOpened, a2dpFinish, h, hhfp, Active, hpos]

/-- A2DP closes: the timer starts, or the tries are used up. -/
theorem a2dpClosed_goes (hmode : m.reconnect_mode ≠ .reconnectPending) {lost creating : Bool} :
    Goes r (a2dpFinish (activeStorePtrGet record) creating (a2dpClosed (activeStorePtrGet record) lost false m)) := by
  cases h : m.reconnect_mode with
  | reconnectPending => exact absurd h hmode
  | null =>
    left
    simp [a2dpClosed, a2dpFinish, h]
  | reconnecting =>
    by_cases hcnt : (m.reconnect_cnt + 1) % 65536 < retryLimit
    · right
      simp [a2dpClosed, a2dpFinish, h, countUp, hcnt, Active]
    · left
      simp [a2dpClosed, a2dpFinish, h, countUp, hcnt, restoreReconnectingIdleMode]
  | openreconnecting =>
    by_cases hcnt : (m.reconnect_cnt + 1) % 65536 < openningRetryLimit
    · right
      simp [a2dpClosed, a2dpFinish, h, countUp, hcnt, Active]
    · left
      simp [a2dpClosed, a2dpFinish, h, countUp, hcnt, restoreReconnectingIdleMode]

/-- The timer expires: it starts again, or a profile that is not connected is tried. -/
theorem reconnectHandler_goes (hm : m.reconnect_mode = .null ∨
      (Active m ∧ ¬ (m.hfp_connect = .success ∧ m.a2dp_connect = .success))) {pendCons : Bool} :
    Goes r (reconnectHandler pendCons (activeStorePtrGet record) m) := by
  rcases hm with hnull | ⟨hactive, hnot⟩
  · left
    unfold reconnectHandler
    split
    · split <;> exact hnull
    · split_ifs <;> exact hnull
  · right
    unfold reconnectHandler
    split
    · split <;> exact ⟨hactive, .inl rfl, hnot⟩
    · by_cases hhfp : m.hfp_connect = .success
      · have ha2dp : m.a2dp_connect ≠ .success := fun ha2dp => hnot ⟨hhfp, ha2dp⟩
        rw [if_neg (by simp [hhfp]), if_pos (by simp [ha2dp])]
        refine ⟨hactive, .inr ?_, hnot⟩
        simp only [a2dpOpenStream]
        omega
      · rw [if_pos (by simp [hhfp])]
        refine ⟨hactive, .inr ?_, hnot⟩
        simp only [hfCreateServiceLink]
        omega

/-! ## Runs -/

theorem connectManagerHf_goes (hmode : m.reconnect_mode ≠ .reconnectPending) {e : HfEvent}
    (hcov : e = .connected → m.reconnect_mode = .reconnecting → m.a2dp_connect ≠ .success) :
    Goes r (connectManagerHf enhanced false (activeStorePtrGet record) (activeStorePtrGet record1) e m) := by
  cases e with
  | connected => exact hfConnected_goes (m := { m with timer := false }) hmode (hcov rfl)
  | disconnected reason saved => exact hfDisconnected_goes (m := { m with timer := false }) hmode

theorem connectManagerA2dp_goes (hmode : m.reconnect_mode ≠ .reconnectPending) {e : A2dpEvent} {creating : Bool}
    (hcreating : creating = true → 0 < r) (hearly : ReturnsEarly e m → Goes r { m with timer := false }) :
    Goes r (connectManagerA2dp enhanced false (activeStorePtrGet record) creating e m) := by
  cases e with
  | streamOpen =>
    simp only [connectManagerA2dp]
    split
    · rename_i hopen
      exact hearly hopen
    · exact a2dpOpened_goes (m := { m with timer := false }) hmode hcreating
  | streamClosed subevt reason saved =>
    simp only [connectManagerA2dp]
    split
    · rename_i hsub
      exact hearly hsub
    · exact a2dpClosed_goes (m := { m with timer := false }) hmode

/-- An HFP event ends an attempt, and leaves the rest of the manager as it is. -/
theorem endHf_spec {ends : Ends} (h : endHf s ends = some s') :
    s'.reconnect_mode = s.reconnect_mode ∧ s'.a2dp_connect = s.a2dp_connect := by
  cases ends with
  | nothing =>
    cases h
    exact ⟨rfl, rfl⟩
  | own | remote =>
    simp only [endHf] at h
    split at h
    · cases h
    · cases h
      exact ⟨rfl, rfl⟩

/-- An A2DP event ends at most one attempt. -/
theorem endA2dp_spec {ends : Bool} (h : endA2dp s ends = some s') :
    s'.attempts + ends.toNat = s.attempts ∧ s'.reconnect_mode = s.reconnect_mode ∧ s'.hfp_connect = s.hfp_connect ∧
      s'.a2dp_connect = s.a2dp_connect ∧ s'.remote_links = s.remote_links := by
  cases ends with
  | false =>
    cases h
    exact ⟨rfl, rfl, rfl, rfl, rfl⟩
  | true =>
    simp only [endA2dp, if_true] at h
    split at h
    · cases h
    · cases h
      refine ⟨?_, rfl, rfl, rfl, rfl⟩
      simp only [Sys.attempts, Bool.toNat_true]
      omega

theorem Inv.a2dp (hs : Inv s) {e : A2dpEvent} {ends creating : Bool} (hcov : Covered (.a2dp e ends creating record) s)
    (h : step enhanced (.a2dp e ends creating record) s = some s') : Inv s' := by
  obtain ⟨s₁, h₁, h⟩ := Option.bind_eq_some_iff.1 h
  obtain ⟨hattempts, hmode, hhfp, ha2dp, hremote⟩ := endA2dp_spec h₁
  split at h
  · cases h
  rename_i hcreating
  cases h
  apply Inv.of_goes
  apply connectManagerA2dp_goes
  · rw [hmode]
    exact hs.no_pending
  · intro hc
    simp only [hc, true_and] at hcreating
    exact Nat.pos_of_ne_zero hcreating
  · intro hearly
    have hearly' : ReturnsEarly e s.toManager := by
      cases e with
      | streamOpen => exact ha2dp.symm.trans hearly
      | streamClosed subevt reason saved => exact hearly
    rcases hs.goes with hnull | ⟨hactive, -, hnot⟩
    · exact .inl (hmode.trans hnull)
    · -- the timer is stopped, and another attempt is left
      have hleft := hcov hearly' hactive
      simp only [Sys.attempts] at hattempts hleft
      refine .inr ⟨?_, .inr ?_, ?_⟩
      · simpa only [Active, hmode] using hactive
      · dsimp only
        omega
      · simpa only [hhfp, ha2dp] using hnot

theorem Inv.step (hs : Inv s) {e : Event} (hcov : Covered e s) (h : step enhanced e s = some s') : Inv s' := by
  cases e with
  | hf e ends record record1 =>
    obtain ⟨s₁, h₁, rfl⟩ := Option.map_eq_some_iff.1 h
    obtain ⟨hmode, ha2dp⟩ := endHf_spec h₁
    apply Inv.of_goes
    apply connectManagerHf_goes
    · rw [hmode]
      exact hs.no_pending
    · rintro rfl
      rw [hmode, ha2dp]
      exact hcov
  | a2dp e ends creating record => exact hs.a2dp hcov h
  | timer pendCons record =>
    simp only [Reconnect.step] at h
    split at h
    · cases h
      apply Inv.of_goes
      apply reconnectHandler_goes
      rcases hs.goes with hnull | ⟨hactive, -, hnot⟩
      · exact .inl hnull
      · exact .inr ⟨hactive, hnot⟩
    · cases h
  | remoteHf =>
    cases h
    refine ⟨⟨?_, hs.ended⟩, hs.no_pending⟩
    intro _
    right
    simp only [Sys.attempts]
    omega
  | opening record =>
    simp only [Reconnect.step] at h
    split at h
    · cases h
    · rename_i hnone
      cases h
      apply Inv.of_goes
      right
      simp only [openingReconnect, activeStorePtrGet_hfp, if_true, hfCreateServiceLink]
      refine ⟨.inr rfl, .inr ?_, fun hboth => hnone (.inl hboth.1)⟩
      omega
  | stop =>
    cases h
    apply Inv.of_goes
    unfold stopReconnecting
    split
    · exact .inl rfl
    · rename_i hnull
      exact .inl (not_not.1 hnull)

theorem Inv.init (h : Init s) : Inv s := by
  apply Inv.of_goes
  rw [h.1]
  exact .inl rfl

/-- In every run whose events meet the condition, a reconnection has its timer or an
attempt after every event, and none is left when both profiles are connected. -/
theorem reconnection_alive {evs : List Event} (hrun : Run (step enhanced) Covered Init s evs) : Alive s := by
  have hinv : Inv s := hrun.inv Inv (fun _ => Inv.init) fun _ _ _ hs hcov h => hs.step hcov h
  exact hinv.toAlive

/-- HFP and A2DP connect, the link is lost for HFP, and a first try of HFP fails. -/
def lostLink : List Event :=
  [.hf .connected .nothing none none, .a2dp .streamOpen false false none, .hf (.disconnected 8 8) .nothing none none,
    .a2dp (.streamClosed 10 8 8) false false none, .timer false none, .hf (.disconnected 0 0) .own none none]

theorem reconnection_alive_hfp_first : ∃ s evs, Run (step false) Covered Init s evs ∧
    (s.hfp_connect = .success ∧ s.a2dp_connect = .success) ∧ Alive s := by
  obtain ⟨s, hrun, hgood⟩ := exists_run_of_check (step false) Covered Init (some ⟨managerOpen, 0⟩)
    (lostLink ++ [.timer false none, .hf .connected .own none none, .a2dp .streamOpen true false none])
    (fun s => s.hfp_connect = .success ∧ s.a2dp_connect = .success) (by rintro _ ⟨⟩; exact ⟨rfl, rfl⟩) (by decide)
  exact ⟨s, _, hrun, by simpa using hgood, reconnection_alive hrun⟩

/-- After a lost link the phone connects A2DP, and then HFP: the mode stays
reconnecting, without timer and without attempt. -/
theorem a2dp_first_not_ended : ∃ s evs, Run (step false) (fun _ _ => True) Init s evs ∧
    (s.hfp_connect = .success ∧ s.a2dp_connect = .success ∧ s.reconnect_mode = .reconnecting ∧ s.timer = false ∧
      s.attempts = 0) ∧ ¬ Alive s := by
  obtain ⟨s, hrun, hgood⟩ := exists_run_of_check (step false) (fun _ _ => True) Init (some ⟨managerOpen, 0⟩)
    (lostLink ++ [.a2dp .streamOpen false false none, .hf .connected .own none none])
    (fun s => s.hfp_connect = .success ∧ s.a2dp_connect = .success ∧ s.reconnect_mode = .reconnecting ∧ s.timer = false ∧
      s.attempts = 0) (by rintro _ ⟨⟩; exact ⟨rfl, rfl⟩) (by decide)
  have hbad : s.hfp_connect = .success ∧ s.a2dp_connect = .success ∧ s.reconnect_mode = .reconnecting ∧
      s.timer = false ∧ s.attempts = 0 := by simpa using hgood
  refine ⟨s, _, hrun, hbad, ?_⟩
  intro halive
  have hnull := halive.ended hbad.1 hbad.2.1
  rw [hbad.2.2.1] at hnull
  cases hnull

end BtApp.Reconnect
