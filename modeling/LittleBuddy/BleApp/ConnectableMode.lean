import LittleBuddy.BleApp.Gfps
import LittleBuddy.Lib.SaveRestore
/-!
# Connectable mode for Fast Pair

A key-based pairing request wants the device to be connectable. While a mobile
is connected `app_gfps_enter_connectable_mode_req_handler` keeps the response
back until that link is gone; then it sends the response and sets the security
settings of the classic stack, which the end of the BLE connection restores.
The response that is kept back and the saved settings are those of all
connections together.
-/
open Runs SaveRestore

namespace Gfps.Connectable

/-! ## The code -/

/-- The fields of `app_gfps_env` for the response and the settings. -/
structure Env where
  connectionIndex : Option Nat
  bt_iocap : UInt8
  bt_authrequirements : UInt8
  pendingLastResponse : Block
  isLastResponsePending : Bool

/-- A BLE connection: the number that it was given, what the settings were before it was made, and how often they had
been set and restored. -/
structure Link where
  session : Nat
  before : UInt8 × UInt8
  madeAt : Nat

/-- A request: the connection that made it, and its response. -/
structure Request where
  number : Nat
  session : Nat
  response : Block

/-- A response that was sent: the connection of `connectionIndex` at that moment, and the request, if it had been kept
back. -/
structure Sent where
  response : Block
  conn : Option Nat
  deferred : Option Request

/-- The environment, the settings of the classic stack, the number of connected mobiles and the BLE connections; and
for the specification what was asked, sent, set and restored, and the settings around each connection that has
ended. -/
structure Sys where
  env : Env
  iocap : UInt8
  authrequirements : UInt8
  activeCons : Nat
  links : Nat → Option Link
  sessions : Nat
  requests : Nat
  pending : Option Request
  log : List Sent
  ops : List (Op (UInt8 × UInt8))
  ended : List ((UInt8 × UInt8) × (UInt8 × UInt8))

/-- Behind `app_gfps_init_env`. -/
def start (iocap authrequirements : UInt8) (activeCons : Nat) : Sys where
  env := ⟨none, 0, 0, fun _ => 0, false⟩
  iocap := iocap
  authrequirements := authrequirements
  activeCons := activeCons
  links _ := none
  sessions := 0
  requests := 0
  pending := none
  log := []
  ops := []
  ended := []

/-- The BLE connection that `connectionIndex` stands for. -/
def Sys.conn (s : Sys) : Option Nat := (s.env.connectionIndex.bind s.links).map Link.session

/-- `app_gfps_send_keybase_pairing_via_notification`. -/
def sendKeybasePairingViaNotification (response : Block) (deferred : Option Request) (s : Sys) : Sys :=
  { s with log := s.log ++ [⟨response, s.conn, deferred⟩] }

/-- `app_gfps_enter_connectable_mode_req_handler` with `bt_set_iocap` and `bt_set_authrequirements` set; `request` is
what asks, and `deferred` is it if it was kept back before. -/
def enterConnectableModeReqHandler (response : Block) (request deferred : Option Request) (s : Sys) : Sys :=
  if 0 < s.activeCons then
    { s with
      env := { s.env with pendingLastResponse := response, isLastResponsePending := true }
      pending := request }
  else
    let s := sendKeybasePairingViaNotification response deferred s
    { s with
      env := { s.env with
        isLastResponsePending := false
        bt_iocap := s.iocap
        bt_authrequirements := s.authrequirements }
      pending := none
      iocap := 1
      authrequirements := 1
      ops := s.ops ++ [.enter (1, 1)] }

/-- `app_gfps_handling_on_mobile_link_disconnection`. -/
def handlingOnMobileLinkDisconnection (s : Sys) : Sys :=
  if s.env.isLastResponsePending then enterConnectableModeReqHandler s.env.pendingLastResponse s.pending s.pending s else s

/-- `app_gfps_disconnected_evt_handler`. -/
def disconnectedEvtHandler (conidx : Nat) (s : Sys) : Sys :=
  if s.env.connectionIndex = some conidx then
    { s with
      env := { s.env with connectionIndex := none }
      iocap := s.env.bt_iocap
      authrequirements := s.env.bt_authrequirements
      ops := s.ops ++ [.restore] }
  else s

inductive Event where
  | connect (conidx : Nat)
  /-- A seeker enables the notifications: `gfpsp_update_connection_state`. -/
  | notification (conidx : Nat)
  /-- An accepted request; only some reach the handler, for the others the response is sent at once. -/
  | request (conidx : Nat) (response : Block) (reaches : Bool)
  | disconnect (conidx : Nat)
  | mobileConnect
  | mobileDisconnect

/-- One event. Notifications and requests come over a connection that is up. -/
def step : Event → Sys → Option Sys
  | .connect conidx, s =>
    match s.links conidx with
    | some _ => none
    | none =>
      some { s with
        links := Function.update s.links conidx (some ⟨s.sessions, (s.iocap, s.authrequirements), s.ops.length⟩)
        sessions := s.sessions + 1 }
  | .notification conidx, s =>
    (s.links conidx).map fun _ =>
      if s.env.connectionIndex = none then { s with env := { s.env with connectionIndex := some conidx } } else s
  | .request conidx response reaches, s =>
    (s.links conidx).map fun link =>
      let s' := { s with requests := s.requests + 1 }
      if reaches then enterConnectableModeReqHandler response (some ⟨s.requests, link.session, response⟩) none s'
      else sendKeybasePairingViaNotification response none s'
  | .disconnect conidx, s =>
    (s.links conidx).map fun link =>
      let s' := disconnectedEvtHandler conidx s
      { s' with
        links := Function.update s'.links conidx none
        ended := s'.ended ++ [(link.before, (s'.iocap, s'.authrequirements))] }
  | .mobileConnect, s => some { s with activeCons := s.activeCons + 1 }
  | .mobileDisconnect, s =>
    match s.activeCons with
    | 0 => none
    | activeCons + 1 => some (handlingOnMobileLinkDisconnection { s with activeCons := activeCons })

/-! ## The deferred response -/

/-- The requests whose response was kept back and sent. -/
def Sys.numbers (s : Sys) : List Nat := (s.log.filterMap Sent.deferred).map Request.number

/-- What was kept back is sent once at most, as it was, over the connection that made the request and is up. -/
structure DeferredRight (s : Sys) : Prop where
  once : s.numbers.Nodup
  own : ∀ sent ∈ s.log, ∀ request, sent.deferred = some request →
    sent.response = request.response ∧ sent.conn = some request.session

/-- Where the end of a mobile link lets the pending response go, `connectionIndex` is the connection that made the
request. -/
def OwnerConnected : Event → Sys → Prop
  | .mobileDisconnect, s => ∀ request ∈ s.pending, s.activeCons ≤ 1 → s.conn = some request.session
  | .connect _, _ | .notification _, _ | .request _ _ _, _ | .disconnect _, _ | .mobileConnect, _ => True

instance (e : Event) (s : Sys) : Decidable (OwnerConnected e s) :=
  match e with
  | .mobileDisconnect =>
    inferInstanceAs (Decidable (∀ request ∈ s.pending, s.activeCons ≤ 1 → s.conn = some request.session))
  | .connect _ | .notification _ | .request _ _ _ | .disconnect _ | .mobileConnect => isTrue trivial

section Deferred

variable {s s' : Sys} {response : Block} {request deferred : Option Request}

/-- What the runs keep: a pending request is not sent yet, and its response is the one that is kept. -/
structure Tracked (s : Sys) : Prop where
  right : DeferredRight s
  old : ∀ n ∈ s.numbers, n < s.requests
  pending : ∀ r ∈ s.pending, s.env.pendingLastResponse = r.response ∧ r.number < s.requests ∧ r.number ∉ s.numbers

theorem Tracked.unsent (h : Tracked s) (hlog : s'.log = s.log) (hrequests : s.requests ≤ s'.requests)
    (hpending : ∀ r ∈ s'.pending, s'.env.pendingLastResponse = r.response ∧ r.number < s'.requests ∧ r.number ∉ s.numbers) :
    Tracked s' := by
  have hnumbers : s'.numbers = s.numbers := by rw [Sys.numbers, hlog, Sys.numbers]
  refine ⟨⟨?_, ?_⟩, fun n hn => ?_, ?_⟩
  · rw [hnumbers]
    exact h.right.once
  · rw [hlog]
    exact h.right.own
  · rw [hnumbers] at hn
    exact Nat.lt_of_lt_of_le (h.old n hn) hrequests
  · rw [hnumbers]
    exact hpending

theorem Tracked.sent (h : Tracked s) {conn : Option Nat} (hlog : s'.log = s.log ++ [⟨response, conn, deferred⟩])
    (hrequests : s.requests ≤ s'.requests)
    (hdeferred : ∀ r ∈ deferred, response = r.response ∧ conn = some r.session ∧ r.number < s.requests ∧ r.number ∉ s.numbers)
    (hpending : ∀ r ∈ s'.pending, deferred = none ∧ s'.env.pendingLastResponse = r.response ∧ r.number < s'.requests ∧
      r.number ∉ s.numbers) : Tracked s' := by
  have hnumbers : s'.numbers = s.numbers ++ deferred.toList.map Request.number := by
    rw [Sys.numbers, hlog, List.filterMap_append, List.map_append, Sys.numbers]
    cases deferred with
    | none => rfl
    | some r => rfl
  refine ⟨⟨?_, ?_⟩, fun n hn => ?_, fun r hr => ?_⟩
  · rw [hnumbers]
    cases deferred with
    | none =>
      rw [Option.toList_none, List.map_nil, List.append_nil]
      exact h.right.once
    | some r =>
      obtain ⟨-, -, -, hnew⟩ := hdeferred r rfl
      exact List.nodup_append.mpr ⟨h.right.once, List.nodup_singleton _, fun n hn m hm heq => hnew (by
        rw [← List.mem_singleton.mp hm, ← heq]
        exact hn)⟩
  · intro sent hsent r hr
    rw [hlog] at hsent
    rcases List.mem_append.mp hsent with hold | hnew
    · exact h.right.own sent hold r hr
    · obtain rfl := List.mem_singleton.mp hnew
      obtain ⟨hresponse, hover, -⟩ := hdeferred r hr
      exact ⟨hresponse, hover⟩
  · rw [hnumbers] at hn
    rcases List.mem_append.mp hn with hold | hnew
    · exact Nat.lt_of_lt_of_le (h.old n hold) hrequests
    · obtain ⟨r, hr, rfl⟩ := List.mem_map.mp hnew
      obtain ⟨-, -, hlt, -⟩ := hdeferred r (Option.mem_toList.mp hr)
      exact Nat.lt_of_lt_of_le hlt hrequests
  · obtain ⟨hnone, hrest⟩ := hpending r hr
    rw [hnumbers, hnone, Option.toList_none, List.map_nil, List.append_nil]
    exact hrest

/-- The handler: what is kept back has not been sent, and what was kept back goes over its own connection. -/
theorem enter_tracked (h : Tracked s)
    (hrequest : ∀ r ∈ request, response = r.response ∧ r.number < s.requests ∧ r.number ∉ s.numbers)
    (hdeferred : ∀ r ∈ deferred, r ∈ request ∧ (s.activeCons = 0 → s.conn = some r.session)) :
    Tracked (enterConnectableModeReqHandler response request deferred s) := by
  rw [enterConnectableModeReqHandler]
  by_cases hactive : 0 < s.activeCons
  · rw [if_pos hactive]
    exact h.unsent rfl (Nat.le_refl _) hrequest
  · rw [if_neg hactive]
    refine h.sent rfl (Nat.le_refl _) (fun r hr => ?_) fun r hr => by cases hr
    obtain ⟨hasked, hover⟩ := hdeferred r hr
    obtain ⟨hresponse, hlt, hnew⟩ := hrequest r hasked
    exact ⟨hresponse, hover (Nat.eq_zero_of_not_pos hactive), hlt, hnew⟩

theorem step_tracked {e : Event} (h : Tracked s) (howner : OwnerConnected e s) (hstep : step e s = some s') : Tracked s' := by
  cases e with
  | connect conidx =>
    rw [step] at hstep
    split at hstep
    · cases hstep
    · cases Option.some_inj.mp hstep
      exact h.unsent rfl (Nat.le_refl _) h.pending
  | notification conidx =>
    obtain ⟨link, -, rfl⟩ := Option.map_eq_some_iff.mp hstep
    split
    · exact h.unsent rfl (Nat.le_refl _) h.pending
    · exact h
  | request conidx response reaches =>
    obtain ⟨link, -, rfl⟩ := Option.map_eq_some_iff.mp hstep
    have hnew : s.requests ∉ s.numbers := fun hmem => Nat.lt_irrefl _ (h.old _ hmem)
    have hasked : Tracked { s with requests := s.requests + 1 } :=
      h.unsent rfl (Nat.le_succ _) fun r hr => ⟨(h.pending r hr).1, Nat.lt_succ_of_lt (h.pending r hr).2.1, (h.pending r hr).2.2⟩
    cases reaches with
    | true =>
      refine enter_tracked hasked (fun r hr => ?_) fun r hr => by cases hr
      obtain rfl := Option.some_inj.mp hr
      exact ⟨rfl, Nat.lt_succ_self _, hnew⟩
    | false => exact hasked.sent rfl (Nat.le_refl _) (fun r hr => by cases hr) fun r hr => ⟨rfl, hasked.pending r hr⟩
  | disconnect conidx =>
    obtain ⟨link, -, rfl⟩ := Option.map_eq_some_iff.mp hstep
    have hended : Tracked (disconnectedEvtHandler conidx s) := by
      rw [disconnectedEvtHandler]
      split
      · exact h.unsent rfl (Nat.le_refl _) h.pending
      · exact h
    exact hended.unsent rfl (Nat.le_refl _) hended.pending
  | mobileConnect =>
    cases Option.some_inj.mp hstep
    exact h.unsent rfl (Nat.le_refl _) h.pending
  | mobileDisconnect =>
    rw [step] at hstep
    split at hstep
    · cases hstep
    · rename_i activeCons hactive
      cases Option.some_inj.mp hstep
      have hgone : Tracked { s with activeCons := activeCons } := h.unsent rfl (Nat.le_refl _) h.pending
      rw [handlingOnMobileLinkDisconnection]
      split
      · refine enter_tracked hgone hgone.pending fun r hr => ⟨hr, fun hzero => howner r hr ?_⟩
        have hzero : activeCons = 0 := hzero
        omega
      · exact hgone

end Deferred

/-- In a run in which the connection of a pending response is up and in `connectionIndex` where the response is let go,
a deferred response is sent once at most, and over that connection. -/
theorem deferred_right_of_run {iocap authrequirements : UInt8} {activeCons : Nat} {s : Sys} {es : List Event}
    (h : Run step OwnerConnected (· = start iocap authrequirements activeCons) s es) : DeferredRight s := by
  refine (h.inv Tracked ?_ fun e s s' htracked howner hstep => step_tracked htracked howner hstep).right
  rintro s rfl
  exact ⟨⟨List.nodup_nil, List.forall_mem_nil _⟩, List.forall_mem_nil _, fun r hr => by cases hr⟩

/-- A mobile is connected when the request comes; its link ends while the seeker is connected. -/
theorem deferred_right_of_run_connected :
    ∃ s, Run step OwnerConnected (· = start 3 0 1) s
        [.connect 0, .notification 0, .request 0 (fun _ => 7) true, .mobileDisconnect] ∧
      s.log.map Sent.conn = [some 0] ∧ DeferredRight s := by
  obtain ⟨s, hrun, hgood⟩ := exists_run_of_check step OwnerConnected (· = start 3 0 1) (some (start 3 0 1))
    [.connect 0, .notification 0, .request 0 (fun _ => 7) true, .mobileDisconnect]
    (fun s => decide (s.log.map Sent.conn = [some 0])) (fun _ h => (Option.some_inj.mp h).symm) (by decide)
  exact ⟨s, hrun, of_decide_eq_true hgood, deferred_right_of_run hrun⟩

/-- The seeker goes, and another one comes before the mobile's link ends: it gets the response. -/
theorem deferred_to_another :
    ∃ s, Run step (fun _ _ => True) (· = start 3 0 1) s
        [.connect 0, .notification 0, .request 0 (fun _ => 7) true, .disconnect 0, .connect 0, .notification 0,
          .mobileDisconnect] ∧ ¬DeferredRight s := by
  obtain ⟨s, hrun, hgood⟩ := exists_run_of_check step (fun _ _ => True) (· = start 3 0 1) (some (start 3 0 1))
    [.connect 0, .notification 0, .request 0 (fun _ => 7) true, .disconnect 0, .connect 0, .notification 0, .mobileDisconnect]
    (fun s => s.log.any fun sent => sent.deferred.any fun request => decide (sent.conn ≠ some request.session))
    (fun _ h => (Option.some_inj.mp h).symm) (by decide)
  refine ⟨s, hrun, fun hright => ?_⟩
  obtain ⟨sent, hsent, hother⟩ := List.any_eq_true.mp hgood
  obtain ⟨request, hrequest, hover⟩ := (Option.any_eq_true _ _).mp hother
  exact of_decide_eq_true hover (hright.own sent hsent request hrequest).2

/-! ## The security settings -/

/-- The settings are, after each BLE connection, what they were before it. -/
def SettingsRestored (s : Sys) : Prop := ∀ e ∈ s.ended, e.2 = e.1

/-- The restoration by `app_gfps_disconnected_evt_handler`, for the connection of `connectionIndex`. -/
def Sys.ownRestore (s : Sys) (conidx : Nat) : List (Op (UInt8 × UInt8)) :=
  if s.env.connectionIndex = some conidx then [.restore] else []

/-- Since the connection was made, and with its own end, each setting was followed by a restoration before the next
one, and there was no restoration without a setting unless the settings had been restored before. -/
def Balanced : Event → Sys → Prop
  | .disconnect conidx, s => ∀ link ∈ s.links conidx,
      paired (settled (s.ops.take link.madeAt)) (s.ops.drop link.madeAt ++ s.ownRestore conidx) = true
  | .connect _, _ | .notification _, _ | .request _ _ _, _ | .mobileConnect, _ | .mobileDisconnect, _ => True

instance (e : Event) (s : Sys) : Decidable (Balanced e s) :=
  match e with
  | .disconnect conidx => inferInstanceAs (Decidable (∀ link ∈ s.links conidx,
      paired (settled (s.ops.take link.madeAt)) (s.ops.drop link.madeAt ++ s.ownRestore conidx) = true))
  | .connect _ | .notification _ | .request _ _ _ | .mobileConnect | .mobileDisconnect => isTrue trivial

section Settings

variable {s s' : Sys} {first : Cell (UInt8 × UInt8)}

/-- The settings, and those that are saved. -/
def Sys.cell (s : Sys) : Cell (UInt8 × UInt8) := ⟨(s.iocap, s.authrequirements), (s.env.bt_iocap, s.env.bt_authrequirements)⟩

/-- The settings follow their operations, and a connection remembers what they were when it was made. -/
structure Recorded (first : Cell (UInt8 × UInt8)) (s : Sys) : Prop where
  cell : s.cell = first.applyAll s.ops
  links : ∀ conidx link, s.links conidx = some link →
    link.madeAt ≤ s.ops.length ∧ link.before = (first.applyAll (s.ops.take link.madeAt)).current
  restored : SettingsRestored s

/-- Some operations on the settings, and nothing that is recorded for the connections. -/
def Operates (ops : List (Op (UInt8 × UInt8))) (s s' : Sys) : Prop :=
  s'.ops = s.ops ++ ops ∧ s'.cell = s.cell.applyAll ops ∧ s'.links = s.links ∧ s'.ended = s.ended

theorem Recorded.operates (h : Recorded first s) {ops : List (Op (UInt8 × UInt8))} (hoperates : Operates ops s s') :
    Recorded first s' := by
  obtain ⟨hops, hcell, hlinks, hended⟩ := hoperates
  refine ⟨?_, fun conidx link hlink => ?_, ?_⟩
  · rw [hcell, h.cell, hops, applyAll_append]
  · rw [hlinks] at hlink
    obtain ⟨hle, hbefore⟩ := h.links conidx link hlink
    rw [hops, List.length_append, List.take_append_of_le_length hle]
    exact ⟨Nat.le_add_right_of_le hle, hbefore⟩
  · rw [SettingsRestored, hended]
    exact h.restored

theorem enter_operates (response : Block) (request deferred : Option Request) (s : Sys) :
    ∃ ops, Operates ops s (enterConnectableModeReqHandler response request deferred s) := by
  rw [enterConnectableModeReqHandler]
  split
  · exact ⟨[], (List.append_nil _).symm, rfl, rfl, rfl⟩
  · exact ⟨[.enter (1, 1)], rfl, rfl, rfl, rfl⟩

theorem disconnected_operates (conidx : Nat) (s : Sys) :
    Operates (s.ownRestore conidx) s (disconnectedEvtHandler conidx s) := by
  rw [disconnectedEvtHandler, Sys.ownRestore]
  split
  · exact ⟨rfl, rfl, rfl, rfl⟩
  · exact ⟨(List.append_nil _).symm, rfl, rfl, rfl⟩

/-- At the end of a connection with balanced operations the settings are what they were. -/
theorem ended_restored (h : Recorded first s) {conidx : Nat} {link : Link} (hlink : s.links conidx = some link)
    (hbalanced : Balanced (.disconnect conidx) s) : (disconnectedEvtHandler conidx s).cell.current = link.before := by
  obtain ⟨-, hbefore⟩ := h.links conidx link hlink
  obtain ⟨-, hcell, -, -⟩ := disconnected_operates conidx s
  have hsplit : s.cell = (first.applyAll (s.ops.take link.madeAt)).applyAll (s.ops.drop link.madeAt) := by
    rw [h.cell, ← applyAll_append, List.take_append_drop]
  rw [hcell, hsplit, ← applyAll_append, hbefore]
  exact applyAll_current (hbalanced link hlink) saved_of_settled

theorem step_recorded {e : Event} (h : Recorded first s) (hbalanced : Balanced e s) (hstep : step e s = some s') :
    Recorded first s' := by
  cases e with
  | connect conidx =>
    rw [step] at hstep
    split at hstep
    · cases hstep
    · cases Option.some_inj.mp hstep
      refine ⟨h.cell, fun c link hlink => ?_, h.restored⟩
      change Function.update s.links conidx _ c = some link at hlink
      by_cases hc : c = conidx
      · subst hc
        rw [Function.update_self] at hlink
        obtain rfl := Option.some_inj.mp hlink
        refine ⟨Nat.le_refl _, ?_⟩
        rw [List.take_length, ← h.cell]
        rfl
      · rw [Function.update_of_ne hc] at hlink
        exact h.links c link hlink
  | notification conidx =>
    obtain ⟨link, -, rfl⟩ := Option.map_eq_some_iff.mp hstep
    split
    · exact ⟨h.cell, h.links, h.restored⟩
    · exact h
  | request conidx response reaches =>
    obtain ⟨link, -, rfl⟩ := Option.map_eq_some_iff.mp hstep
    have hasked : Recorded first { s with requests := s.requests + 1 } := ⟨h.cell, h.links, h.restored⟩
    cases reaches with
    | true =>
      obtain ⟨ops, hoperates⟩ := enter_operates response (some ⟨s.requests, link.session, response⟩) none
        { s with requests := s.requests + 1 }
      exact hasked.operates hoperates
    | false => exact ⟨h.cell, h.links, h.restored⟩
  | disconnect conidx =>
    obtain ⟨link, hlink, rfl⟩ := Option.map_eq_some_iff.mp hstep
    have hrestored := ended_restored h hlink hbalanced
    have hended := h.operates (disconnected_operates conidx s)
    refine ⟨hended.cell, fun c link hlink => ?_, fun e he => ?_⟩
    · change Function.update (disconnectedEvtHandler conidx s).links conidx none c = some link at hlink
      by_cases hc : c = conidx
      · subst hc
        rw [Function.update_self] at hlink
        cases hlink
      · rw [Function.update_of_ne hc] at hlink
        exact hended.links c link hlink
    · rcases List.mem_append.mp he with hold | hnew
      · exact hended.restored e hold
      · obtain rfl := List.mem_singleton.mp hnew
        exact hrestored
  | mobileConnect =>
    cases Option.some_inj.mp hstep
    exact ⟨h.cell, h.links, h.restored⟩
  | mobileDisconnect =>
    rw [step] at hstep
    split at hstep
    · cases hstep
    · rename_i activeCons _
      cases Option.some_inj.mp hstep
      have hgone : Recorded first { s with activeCons := activeCons } := ⟨h.cell, h.links, h.restored⟩
      rw [handlingOnMobileLinkDisconnection]
      split
      · obtain ⟨ops, hoperates⟩ := enter_operates s.env.pendingLastResponse s.pending s.pending { s with activeCons := activeCons }
        exact hgone.operates hoperates
      · exact hgone

end Settings

/-- In a run in which every connection ends with balanced operations, the settings are restored each time. -/
theorem settings_restored_of_run {iocap authrequirements : UInt8} {activeCons : Nat} {s : Sys} {es : List Event}
    (h : Run step Balanced (· = start iocap authrequirements activeCons) s es) : SettingsRestored s := by
  refine (h.inv (Recorded (start iocap authrequirements activeCons).cell) ?_
    fun e s s' hrecorded hbalanced hstep => step_recorded hrecorded hbalanced hstep).restored
  rintro s rfl
  exact ⟨rfl, fun conidx link hlink => (by cases hlink), List.forall_mem_nil _⟩

/-- A connection with one request that reaches the handler, and one without a request. -/
theorem settings_restored_of_run_once :
    ∃ s, Run step Balanced (· = start 3 0 0) s
        [.connect 0, .notification 0, .request 0 (fun _ => 7) true, .disconnect 0, .connect 0, .notification 0, .disconnect 0] ∧
      s.ended.length = 2 ∧ SettingsRestored s := by
  obtain ⟨s, hrun, hgood⟩ := exists_run_of_check step Balanced (· = start 3 0 0) (some (start 3 0 0))
    [.connect 0, .notification 0, .request 0 (fun _ => 7) true, .disconnect 0, .connect 0, .notification 0, .disconnect 0]
    (fun s => decide (s.ended.length = 2)) (fun _ h => (Option.some_inj.mp h).symm) (by decide)
  exact ⟨s, hrun, of_decide_eq_true hgood, settings_restored_of_run hrun⟩

/-- Two requests in a connection: the second one saves what the first one set. -/
theorem settings_lost : ∃ s, Run step (fun _ _ => True) (· = start 3 0 0) s
      [.connect 0, .notification 0, .request 0 (fun _ => 7) true, .request 0 (fun _ => 8) true, .disconnect 0] ∧
    s.ended = [((3, 0), (1, 1))] ∧ ¬SettingsRestored s := by
  obtain ⟨s, hrun, hgood⟩ := exists_run_of_check step (fun _ _ => True) (· = start 3 0 0) (some (start 3 0 0))
    [.connect 0, .notification 0, .request 0 (fun _ => 7) true, .request 0 (fun _ => 8) true, .disconnect 0]
    (fun s => decide (s.ended = [((3, 0), (1, 1))])) (fun _ h => (Option.some_inj.mp h).symm) (by decide)
  have hended : s.ended = [((3, 0), (1, 1))] := of_decide_eq_true hgood
  refine ⟨s, hrun, hended, fun hrestored => ?_⟩
  have heq := hrestored ((3, 0), (1, 1)) (by rw [hended]; exact List.mem_singleton_self _)
  exact absurd heq (by decide)

end Gfps.Connectable
