import LittleBuddy.Apps.Wnr
import Mathlib.Tactic.Common
/-!
# Both earbuds apply the last trigger

What an earbud has applied when it comes to rest is known at any time: `settled`
is the state of its timer, else the last one in its mailbox. In a run in which
the slave's timer is started for each trigger that it is in time for, and is
not on for another state when it is late, this is the last trigger for the
master, and for the slave as soon as it has handled the triggers on their way.
-/
open Runs

namespace Wnr

/-- The timer runs or a call of its handler is queued. -/
def Side.pending (s : Side) : Bool := s.app_wnr_sync_timer.running || decide (0 < s.app_wnr_sync_timer.queued)

/-- Nothing is on its way, queued or timed. -/
def Quiet (s : Sys) : Prop := ∀ r, (s.side r).mailbox = [] ∧ s.inbox r = [] ∧ (s.side r).pending = false

/-- The state of the master's last `SET_TRIGGER`. -/
def lastTrigger (s : Sys) : UInt8 := s.triggers.getLast?.getD 0

/-- When nothing is left to be done both earbuds have applied the last trigger. -/
def Agrees (s : Sys) : Prop := Quiet s → ∀ r, (s.side r).g_wind_st = lastTrigger s

/-- A trigger that the slave handles before its target time is a millisecond or
more ahead, and when one comes late the timer is not on for another state. -/
def InTime (e : Event) (s : Sys) : Prop :=
  match e with
  | .handle .slave current_ticks => ∀ state tg_ticks, (s.side .slave).mailbox.head? = some (.setTrigger state tg_ticks) →
      if tg_ticks > current_ticks then ticksPerMs ≤ (tg_ticks - current_ticks).toNat
      else (s.side .slave).pending = true → (s.side .slave).g_set_Windstate = state
  | _ => True

/-! ## What an earbud comes to -/

def Evt.excute : Evt → Option UInt8
  | .excuteTrigger arg0 => some arg0
  | _ => none

def Evt.trigger : Evt → Option UInt8
  | .setTrigger arg0 _ => some arg0
  | _ => none

/-- The states that are to be applied, in order. -/
def excutes (mailbox : List Evt) : List UInt8 := mailbox.filterMap Evt.excute

/-- The triggers that are to be handled, in order. -/
def setTriggers (mailbox : List Evt) : List UInt8 := mailbox.filterMap Evt.trigger

/-- The state that is applied in the end, the triggers in the mailbox apart. -/
def settled (s : Side) : UInt8 := if s.pending then s.g_set_Windstate else (excutes s.mailbox).getLast?.getD s.g_wind_st

/-- The modules are open and know of each other. -/
structure Side.On (s : Side) : Prop where
  localOn : s.g_local_Wind_module_onoff = true
  peerOn : s.g_peer_Wind_module_onoff = true

/-- Nothing that has to do with triggers is different, but for events in the mailbox. -/
structure Inert (s t : Side) (added : List Evt) : Prop where
  on : t.On
  wind : t.g_wind_st = s.g_wind_st
  set : t.g_set_Windstate = s.g_set_Windstate
  timer : t.app_wnr_sync_timer = s.app_wnr_sync_timer
  mailbox : t.mailbox = s.mailbox ++ added

theorem excutes_append (l l' : List Evt) : excutes (l ++ l') = excutes l ++ excutes l' := List.filterMap_append ..

theorem setTriggers_append (l l' : List Evt) : setTriggers (l ++ l') = setTriggers l ++ setTriggers l' :=
  List.filterMap_append ..

theorem Inert.settled_eq {s t : Side} {added : List Evt} (h : Inert s t added) (hadded : excutes added = []) :
    settled t = settled s := by
  unfold settled Side.pending
  rw [h.wind, h.set, h.timer, h.mailbox, excutes_append, hadded, List.append_nil]

theorem settled_of_pending {s : Side} (h : s.pending = true) : settled s = s.g_set_Windstate := if_pos h

/-- An event that applies no state. -/
theorem settled_cons {s : Side} {evt : Evt} {mailbox : List Evt} (hmail : s.mailbox = evt :: mailbox) (h : evt.excute = none) :
    settled { s with mailbox } = settled s := by
  have hexcutes : excutes s.mailbox = excutes mailbox := by
    rw [hmail]
    exact List.filterMap_cons_none h
  unfold settled
  rw [hexcutes]
  rfl

theorem trigger_excute (s : Side) (arg0 : UInt8) :
    settled (appWnrTriggerInternalEvent (.excuteTrigger arg0) s) = if s.pending then s.g_set_Windstate else arg0 := by
  have hlast : excutes (s.mailbox ++ [.excuteTrigger arg0]) = excutes s.mailbox ++ [arg0] := excutes_append ..
  unfold settled appWnrTriggerInternalEvent
  dsimp only
  rw [hlast, List.getLast?_concat]
  rfl

/-- Applying the first state of the mailbox changes nothing about the end. -/
theorem settled_excute {s : Side} {arg0 : UInt8} {mailbox : List Evt} (hmail : s.mailbox = .excuteTrigger arg0 :: mailbox) :
    settled (appWnrExcuteTrigger arg0 { s with mailbox, wnr_sync_counter := 0 }) = settled s := by
  have hexcutes : excutes s.mailbox = arg0 :: excutes mailbox := by
    rw [hmail]
    rfl
  have happlied : appWnrExcuteTrigger arg0 { s with mailbox, wnr_sync_counter := 0 } =
      { s with mailbox, wnr_sync_counter := 0, g_wind_st := arg0 } := by
    unfold appWnrExcuteTrigger
    split_ifs with hne
    · rfl
    · rw [not_not] at hne
      rw [hne]
  rw [happlied]
  unfold settled
  rw [hexcutes, List.getLast?_cons]
  rfl

/-! ## What the functions do -/

theorem excuteTrigger_on (arg0 : UInt8) {s : Side} (h : s.On) : (appWnrExcuteTrigger arg0 s).On := by
  unfold appWnrExcuteTrigger
  split_ifs
  · exact ⟨h.localOn, h.peerOn⟩
  · exact h

theorem excuteTrigger_mailbox (arg0 : UInt8) (s : Side) : (appWnrExcuteTrigger arg0 s).mailbox = s.mailbox ++ [] := by
  unfold appWnrExcuteTrigger
  rw [List.append_nil]
  split_ifs <;> rfl

theorem inert_refl {s : Side} (h : s.On) : Inert s s [] := ⟨h, rfl, rfl, rfl, (List.append_nil _).symm⟩

theorem inert_trigger {s : Side} (h : s.On) (evt : Evt) : Inert s (appWnrTriggerInternalEvent evt s) [evt] :=
  ⟨⟨h.localOn, h.peerOn⟩, rfl, rfl, rfl, rfl⟩

/-- A detection round asks the peer at most. -/
theorem processFrame_inert (role : Role) (windstate : UInt8) {s : Side} (h : s.On) :
    ∃ added, Inert s (ancWnrProcessFrame role windstate s) added ∧
      ∀ evt ∈ added, evt = .requestDetectResult ∨ evt = .notifyDetectResult := by
  obtain ⟨mode, queue, counter, wind, set, loc, peer, local_on, peer_on, notify, request, sync, timer, mailbox⟩ := s
  obtain ⟨hlocal, hpeer⟩ := h
  dsimp only at hlocal hpeer
  subst hlocal hpeer
  unfold ancWnrProcessFrame
  simp only [if_true, and_true, not_true_eq_false, false_and, if_false]
  split_ifs
  · exact ⟨_, ⟨⟨rfl, rfl⟩, rfl, rfl, rfl, rfl⟩, by cases role <;> simp⟩
  · exact ⟨_, ⟨⟨rfl, rfl⟩, rfl, rfl, rfl, rfl⟩, by cases role <;> simp⟩
  · exact ⟨[], ⟨⟨rfl, rfl⟩, rfl, rfl, rfl, (List.append_nil _).symm⟩, nofun⟩
  · exact ⟨[], ⟨⟨rfl, rfl⟩, rfl, rfl, rfl, (List.append_nil _).symm⟩, nofun⟩

theorem processDetectResult_inert (arg0 : UInt8) {s : Side} (h : s.On) :
    ∃ state, Inert s (appWnrProcessDetectResult arg0 s) [.setTrigger state 0] := by
  obtain ⟨mode, queue, counter, wind, set, loc, peer, local_on, peer_on, notify, request, sync, timer, mailbox⟩ := s
  obtain ⟨hlocal, hpeer⟩ := h
  dsimp only at hlocal hpeer
  subst hlocal hpeer
  unfold appWnrProcessDetectResult
  cases request with
  | false =>
    simp only [Bool.false_eq_true, if_true, if_false]
    split_ifs
    · exact ⟨_, ⟨rfl, rfl⟩, rfl, rfl, rfl, rfl⟩
    · exact ⟨_, ⟨rfl, rfl⟩, rfl, rfl, rfl, rfl⟩
  | true =>
    simp only [if_true]
    split_ifs
    · exact ⟨_, ⟨rfl, rfl⟩, rfl, rfl, rfl, rfl⟩
    · exact ⟨_, ⟨rfl, rfl⟩, rfl, rfl, rfl, rfl⟩

/-- Events that neither set nor apply a state send no trigger. -/
theorem internalEvent_inert (role : Role) (current_ticks : UInt32) {evt : Evt} {s : Side} (h : s.On)
    (hexcute : evt.excute = none) (htrigger : evt.trigger = none) :
    ∃ added, Inert s (appWnrInternalEventProcess role current_ticks evt s).1 added ∧ excutes added = [] ∧
      (appWnrInternalEventProcess role current_ticks evt s).2.filterMap Cmd.trigger = [] ∧
      ((∀ arg0, evt ≠ .processDetectResult arg0) → added = []) := by
  have hnone : ∀ t : Side, t.On → t.g_wind_st = s.g_wind_st → t.g_set_Windstate = s.g_set_Windstate →
      t.app_wnr_sync_timer = s.app_wnr_sync_timer → t.mailbox = s.mailbox → Inert s t [] :=
    fun t hon hwind hset htimer hmail => ⟨hon, hwind, hset, htimer, hmail.trans (List.append_nil _).symm⟩
  cases evt with
  | notifyDetectResult => exact ⟨[], hnone _ ⟨h.localOn, h.peerOn⟩ rfl rfl rfl rfl, rfl, rfl, fun _ => rfl⟩
  | requestDetectResult => exact ⟨[], hnone _ ⟨h.localOn, h.peerOn⟩ rfl rfl rfl rfl, rfl, rfl, fun _ => rfl⟩
  | responseDetectResult arg0 =>
    simp only [appWnrInternalEventProcess, appWnrResponseDetectResult]
    split_ifs
    · exact ⟨[], hnone _ ⟨h.localOn, h.peerOn⟩ rfl rfl rfl rfl, rfl, rfl, fun _ => rfl⟩
    · exact ⟨[], hnone _ ⟨h.localOn, h.peerOn⟩ rfl rfl rfl rfl, rfl, rfl, fun _ => rfl⟩
  | processDetectResult arg0 =>
    obtain ⟨state, hon, hwind, hset, htimer, hmail⟩ :=
      processDetectResult_inert arg0 (s := { s with wnr_sync_counter := 0 }) ⟨h.localOn, h.peerOn⟩
    exact ⟨_, ⟨hon, hwind, hset, htimer, hmail⟩, rfl, rfl, fun hne => absurd rfl (hne arg0)⟩
  | setTrigger arg0 arg1 => cases htrigger
  | excuteTrigger arg0 => cases hexcute

/-- A message of the slave is received as an event, and so is one of the master. -/
theorem receive_inert (role : Role) {s : Side} (h : s.On) (cmd : Cmd) :
    ∃ added, Inert s (appWnrCmdReceiveProcess role s cmd) added ∧ excutes added = [] ∧
      (role = .slave → setTriggers added = cmd.trigger.toList ∧ ∀ arg0, .processDetectResult arg0 ∉ added) := by
  cases cmd with
  | notifyDetectResult state | responseDetectResult state =>
    cases role with
    | master =>
      simp only [appWnrCmdReceiveProcess, h.localOn, if_true]
      exact ⟨_, ⟨⟨rfl, rfl⟩, rfl, rfl, rfl, rfl⟩, rfl, nofun⟩
    | slave => exact ⟨[], inert_refl h, rfl, fun _ => ⟨rfl, fun _ => List.not_mem_nil⟩⟩
  | requestDetectResult state =>
    cases role with
    | master => exact ⟨[], inert_refl h, rfl, nofun⟩
    | slave =>
      simp only [appWnrCmdReceiveProcess, h.localOn, if_true]
      exact ⟨_, ⟨⟨rfl, rfl⟩, rfl, rfl, rfl, rfl⟩, rfl, fun _ => ⟨rfl, by simp⟩⟩
  | setTrigger state ticks24 ticks16 ticks8 ticks0 =>
    cases role with
    | master => exact ⟨[], inert_refl h, rfl, nofun⟩
    | slave =>
      rw [appWnrCmdReceiveProcess, if_pos rfl, if_pos h.localOn]
      exact ⟨_, inert_trigger h _, rfl, fun _ => ⟨rfl, by simp⟩⟩

/-- The master sets its timer and sends the trigger. -/
theorem setTrigger_master (arg0 : UInt8) (arg1 current_ticks : UInt32) {s : Side} (h : s.On) :
    (appWnrSetTrigger .master arg0 arg1 current_ticks s).1.On ∧
      settled (appWnrSetTrigger .master arg0 arg1 current_ticks s).1 = arg0 ∧
      (appWnrSetTrigger .master arg0 arg1 current_ticks s).2.filterMap Cmd.trigger = [arg0] := by
  have hticks : current_ticks + UInt32.ofNat (syncTriggerDelay * ticksPerMs) ≠ current_ticks := by
    intro he
    have hnat := congrArg UInt32.toNat he
    rw [UInt32.toNat_add] at hnat
    have hlt := current_ticks.toNat_lt
    change (current_ticks.toNat + 4800) % 2 ^ 32 = _ at hnat
    omega
  simp only [appWnrSetTrigger, h.peerOn, if_true, if_pos hticks]
  exact ⟨⟨h.localOn, rfl⟩, rfl, rfl⟩

theorem rtMs2tick_ne_zero {millisec : Nat} (h : 0 < millisec) : rtMs2tick millisec ≠ 0 := by
  unfold rtMs2tick
  split_ifs <;> omega

/-- The slave sets its timer, or applies the state at once when the timer is not on for another. -/
theorem setTrigger_slave (arg0 : UInt8) (arg1 current_ticks : UInt32) {s : Side} (h : s.On)
    (hin : if arg1 > current_ticks then ticksPerMs ≤ (arg1 - current_ticks).toNat
      else s.pending = true → s.g_set_Windstate = arg0) :
    ∃ added, (appWnrSetTrigger .slave arg0 arg1 current_ticks s).1.On ∧
      settled (appWnrSetTrigger .slave arg0 arg1 current_ticks s).1 = arg0 ∧
      (appWnrSetTrigger .slave arg0 arg1 current_ticks s).1.mailbox = s.mailbox ++ added ∧
      setTriggers added = [] ∧ (∀ arg0, .processDetectResult arg0 ∉ added) ∧
      (appWnrSetTrigger .slave arg0 arg1 current_ticks s).2 = [] := by
  simp only [appWnrSetTrigger, h.peerOn, h.localOn, if_true]
  by_cases hahead : arg1 > current_ticks
  · simp only [if_pos hahead] at hin ⊢
    have hms : 0 < (arg1 - current_ticks).toNat / ticksPerMs := Nat.div_pos hin (by decide)
    refine ⟨[], ⟨rfl, rfl⟩, ?_, (List.append_nil _).symm, rfl, nofun, trivial⟩
    refine settled_of_pending ?_
    simp [Side.pending, osTimerStart, if_neg (rtMs2tick_ne_zero hms)]
  · simp only [if_neg hahead] at hin ⊢
    refine ⟨[.excuteTrigger arg0], ⟨rfl, rfl⟩, ?_, rfl, rfl, by simp, trivial⟩
    rw [trigger_excute]
    split_ifs with hpending
    · exact hin hpending
    · rfl

/-! ## Runs -/

/-- The triggers that the slave has still to handle. -/
def coming (s : Sys) : List UInt8 := setTriggers (s.side .slave).mailbox ++ (s.inbox .slave).filterMap Cmd.trigger

structure Inv (s : Sys) : Prop where
  on : ∀ r, (s.side r).On
  master : settled (s.side .master) = lastTrigger s
  slave : (coming s).getLast?.getD (settled (s.side .slave)) = lastTrigger s
  noProcess : ∀ arg0, .processDetectResult arg0 ∉ (s.side .slave).mailbox

theorem Inv.init {s : Sys} (h : Init s) : Inv s := by
  have hsettled : ∀ r, settled (s.side r) = 0 := by
    intro r
    simp [settled, Side.pending, h.timer r, h.mailbox r, h.wind r, excutes]
  have hlast : lastTrigger s = 0 := by simp [lastTrigger, h.triggers]
  refine ⟨fun r => ⟨(h.opened r).1, (h.opened r).2⟩, (hsettled _).trans hlast.symm, ?_, ?_⟩
  · simp [coming, setTriggers, h.mailbox, h.inbox, hsettled, hlast]
  · simp [h.mailbox]

/-- A step of the master without a trigger. -/
theorem Inv.master_step {s : Sys} (h : Inv s) {side : Side} (hon : side.On)
    (hsettled : settled side = settled (s.side .master)) {inbox : Role → List Cmd}
    (hinbox : (inbox .slave).filterMap Cmd.trigger = (s.inbox .slave).filterMap Cmd.trigger) :
    Inv ⟨Function.update s.side .master side, inbox, s.triggers⟩ := by
  have hslave : Function.update s.side .master side .slave = s.side .slave := by simp
  have hcoming : coming ⟨Function.update s.side .master side, inbox, s.triggers⟩ = coming s := by
    simp only [coming, hslave, hinbox]
  refine ⟨fun r => ?_, ?_, ?_, ?_⟩
  · cases r with
    | master => simpa using hon
    | slave => exact hslave ▸ h.on .slave
  · change settled (Function.update s.side .master side .master) = lastTrigger s
    rw [Function.update_self, hsettled]
    exact h.master
  · rw [hcoming]
    dsimp only
    rw [hslave]
    exact h.slave
  · dsimp only
    rw [hslave]
    exact h.noProcess

/-- A step of the slave that neither handles a trigger nor loses one. -/
theorem Inv.slave_step {s : Sys} (h : Inv s) {side : Side} (hon : side.On) {inbox : Role → List Cmd}
    (hslave : (setTriggers side.mailbox ++ (inbox .slave).filterMap Cmd.trigger).getLast?.getD (settled side) =
      (coming s).getLast?.getD (settled (s.side .slave)))
    (hprocess : ∀ arg0, .processDetectResult arg0 ∉ side.mailbox) :
    Inv ⟨Function.update s.side .slave side, inbox, s.triggers⟩ := by
  have hmaster : Function.update s.side .slave side .master = s.side .master := by simp
  refine ⟨fun r => ?_, ?_, ?_, ?_⟩
  · cases r with
    | master => exact hmaster ▸ h.on .master
    | slave => simpa using hon
  · dsimp only
    rw [hmaster]
    exact h.master
  · unfold coming
    dsimp only
    rw [Function.update_self, hslave]
    exact h.slave
  · dsimp only
    rw [Function.update_self]
    exact hprocess

/-- The handler of the timer queues the state that the earbud comes to. -/
theorem settled_handler {s : Side} (h : s.On) (hqueued : 0 < s.app_wnr_sync_timer.queued) (timer : SyncTimer) :
    settled (appWnrSyncTimerHandler { s with app_wnr_sync_timer := timer }) = settled s := by
  have hpending : s.pending = true := by simp [Side.pending, hqueued]
  rw [appWnrSyncTimerHandler, if_pos h.localOn, trigger_excute, settled_of_pending hpending, ite_self]

/-- The end of the time queues a call of the handler. -/
theorem settled_timeout {s : Side} (hrunning : s.app_wnr_sync_timer.running = true) (n : Nat) :
    settled { s with app_wnr_sync_timer := ⟨false, n + 1⟩ } = settled s := by
  have hpending : s.pending = true := by simp [Side.pending, hrunning]
  rw [settled_of_pending hpending]
  exact settled_of_pending (by simp [Side.pending])

theorem Inv.timer_step {s : Sys} (h : Inv s) (r : Role) {side : Side} (hon : side.On) (hsettled : settled side = settled (s.side r))
    (htriggers : setTriggers side.mailbox = setTriggers (s.side r).mailbox)
    (hprocess : ∀ arg0, .processDetectResult arg0 ∈ side.mailbox → .processDetectResult arg0 ∈ (s.side r).mailbox) :
    Inv { s with side := Function.update s.side r side } := by
  cases r with
  | master => exact h.master_step hon hsettled rfl
  | slave => exact h.slave_step hon (by rw [htriggers, hsettled]; rfl) fun arg0 hmem => h.noProcess arg0 (hprocess arg0 hmem)

theorem Inv.deliver {s : Sys} (h : Inv s) (r : Role) {cmd : Cmd} {inbox : List Cmd} (hinbox : s.inbox r = cmd :: inbox) :
    Inv { s with
      side := Function.update s.side r (appWnrCmdReceiveProcess r (s.side r) cmd)
      inbox := Function.update s.inbox r inbox } := by
  obtain ⟨added, hinert, hexcutes, hslave⟩ := receive_inert r (h.on r) cmd
  have hsettled := hinert.settled_eq hexcutes
  cases r with
  | master => exact h.master_step hinert.on hsettled (by simp)
  | slave =>
    obtain ⟨htriggers, hprocess⟩ := hslave rfl
    refine h.slave_step hinert.on ?_ fun arg0 hmem => ?_
    · -- the trigger moves from the inbox to the mailbox
      have hcmd : (s.inbox .slave).filterMap Cmd.trigger = cmd.trigger.toList ++ inbox.filterMap Cmd.trigger := by
        rw [hinbox, List.filterMap_cons]
        cases cmd.trigger <;> rfl
      rw [hsettled, hinert.mailbox, setTriggers_append, htriggers, Function.update_self, coming, hcmd, List.append_assoc]
    · rw [hinert.mailbox] at hmem
      exact (List.mem_append.1 hmem).elim (h.noProcess arg0) (hprocess arg0)

/-- An event is `excute`, `trigger` or neither. -/
theorem evt_cases (evt : Evt) : (∃ arg0, evt = .excuteTrigger arg0) ∨ (∃ arg0 arg1, evt = .setTrigger arg0 arg1) ∨
    (evt.excute = none ∧ evt.trigger = none) := by
  cases evt with
  | excuteTrigger arg0 => exact .inl ⟨arg0, rfl⟩
  | setTrigger arg0 arg1 => exact .inr (.inl ⟨arg0, arg1, rfl⟩)
  | notifyDetectResult | requestDetectResult | responseDetectResult _ | processDetectResult _ => exact .inr (.inr ⟨rfl, rfl⟩)

/-- The state after an event is handled. -/
def handled (s : Sys) (r : Role) (result : Side × List Cmd) : Sys where
  side := Function.update s.side r result.1
  inbox := Function.update s.inbox r.peer (s.inbox r.peer ++ result.2)
  triggers := s.triggers ++ result.2.filterMap Cmd.trigger

/-- The master handles an event without a trigger. -/
theorem Inv.handled_master {s : Sys} (h : Inv s) {result : Side × List Cmd} (hon : result.1.On)
    (hsettled : settled result.1 = settled (s.side .master)) (hcmds : result.2.filterMap Cmd.trigger = []) :
    Inv (handled s .master result) := by
  rw [handled, hcmds, List.append_nil]
  refine h.master_step hon hsettled ?_
  simp only [Role.peer, Function.update_self, List.filterMap_append, hcmds, List.append_nil]

/-- The master handles a trigger. -/
theorem Inv.handled_trigger {s : Sys} (h : Inv s) {result : Side × List Cmd} {arg0 : UInt8} (hon : result.1.On)
    (hsettled : settled result.1 = arg0) (hcmds : result.2.filterMap Cmd.trigger = [arg0]) :
    Inv (handled s .master result) := by
  have hlast : lastTrigger (handled s .master result) = arg0 := by simp [lastTrigger, handled, hcmds]
  have hslave : (handled s .master result).side .slave = s.side .slave := by simp [handled]
  have hinbox : ((handled s .master result).inbox .slave).filterMap Cmd.trigger =
      (s.inbox .slave).filterMap Cmd.trigger ++ [arg0] := by
    simp only [handled, Role.peer, Function.update_self, List.filterMap_append, hcmds]
  refine ⟨fun r => ?_, ?_, ?_, ?_⟩
  · cases r with
    | master => simpa [handled] using hon
    | slave => exact hslave ▸ h.on .slave
  · rw [hlast]
    simpa [handled] using hsettled
  · rw [coming, hinbox, ← List.append_assoc, List.getLast?_concat, hlast]
    rfl
  · rw [hslave]
    exact h.noProcess

theorem Inv.handle_master {s : Sys} (h : Inv s) (current_ticks : UInt32) {evt : Evt} {mailbox : List Evt}
    (hmail : (s.side .master).mailbox = evt :: mailbox) :
    Inv (handled s .master
      (appWnrInternalEventProcess .master current_ticks evt { s.side .master with mailbox })) := by
  have hon : Side.On { s.side .master with mailbox } := ⟨(h.on .master).localOn, (h.on .master).peerOn⟩
  obtain ⟨arg0, rfl⟩ | ⟨arg0, arg1, rfl⟩ | ⟨hexcute, htrigger⟩ := evt_cases evt
  · exact h.handled_master (excuteTrigger_on arg0 ⟨hon.localOn, hon.peerOn⟩) (settled_excute hmail) rfl
  · obtain ⟨hon', hsettled, hcmds⟩ := setTrigger_master arg0 arg1 current_ticks
      (s := { s.side .master with mailbox, wnr_sync_counter := 0 }) ⟨hon.localOn, hon.peerOn⟩
    exact h.handled_trigger hon' hsettled hcmds
  · obtain ⟨added, hinert, hadded, hcmds, -⟩ := internalEvent_inert .master current_ticks hon hexcute htrigger
    exact h.handled_master hinert.on ((hinert.settled_eq hadded).trans (settled_cons hmail hexcute)) hcmds

/-- The slave handles an event that is no trigger. -/
theorem Inv.handled_slave {s : Sys} (h : Inv s) {result : Side × List Cmd} {evt : Evt} {mailbox added : List Evt}
    (hmail : (s.side .slave).mailbox = evt :: mailbox) (hon : result.1.On)
    (hmailbox : result.1.mailbox = mailbox ++ added) (hadded : setTriggers added = [])
    (hprocess : ∀ arg0, .processDetectResult arg0 ∉ added) (hcmds : result.2.filterMap Cmd.trigger = [])
    (hsettled : settled result.1 = evt.trigger.getD (settled (s.side .slave))) :
    Inv (handled s .slave result) := by
  rw [handled, hcmds, List.append_nil]
  refine h.slave_step hon ?_ fun arg0 hmem => ?_
  · have hinbox : Function.update s.inbox Role.slave.peer (s.inbox Role.slave.peer ++ result.2) .slave = s.inbox .slave := by
      simp [Role.peer]
    have hcoming : coming s = evt.trigger.toList ++ (setTriggers mailbox ++ (s.inbox .slave).filterMap Cmd.trigger) := by
      rw [coming, hmail, setTriggers, List.filterMap_cons]
      cases evt.trigger <;> rfl
    rw [hinbox, hmailbox, setTriggers_append, hadded, List.append_nil, hcoming, hsettled]
    -- a trigger that is handled is what the earbud comes to
    cases evt.trigger with
    | none => rfl
    | some arg0 =>
      rw [Option.toList_some, List.singleton_append, List.getLast?_cons]
      rfl
  · rw [hmailbox] at hmem
    refine (List.mem_append.1 hmem).elim (fun hmem => h.noProcess arg0 ?_) (hprocess arg0)
    rw [hmail]
    exact List.mem_cons_of_mem _ hmem

theorem Inv.handle_slave {s : Sys} (h : Inv s) {current_ticks : UInt32} {evt : Evt} {mailbox : List Evt}
    (hmail : (s.side .slave).mailbox = evt :: mailbox) (hin : InTime (.handle .slave current_ticks) s) :
    Inv (handled s .slave
      (appWnrInternalEventProcess .slave current_ticks evt { s.side .slave with mailbox })) := by
  have hon : Side.On { s.side .slave with mailbox } := ⟨(h.on .slave).localOn, (h.on .slave).peerOn⟩
  obtain ⟨arg0, rfl⟩ | ⟨arg0, arg1, rfl⟩ | ⟨hexcute, htrigger⟩ := evt_cases evt
  · exact h.handled_slave hmail (excuteTrigger_on arg0 ⟨hon.localOn, hon.peerOn⟩) (excuteTrigger_mailbox ..) rfl nofun rfl
      (settled_excute hmail)
  · obtain ⟨added, hon', hsettled, hmailbox, hadded, hprocess, hcmds⟩ := setTrigger_slave arg0 arg1 current_ticks
      (s := { s.side .slave with mailbox, wnr_sync_counter := 0 }) ⟨hon.localOn, hon.peerOn⟩
      (hin arg0 arg1 (by rw [hmail]; rfl))
    exact h.handled_slave hmail hon' hmailbox hadded hprocess (congrArg _ hcmds) hsettled
  · obtain ⟨added, hinert, hadded, hcmds, hnone⟩ := internalEvent_inert .slave current_ticks hon hexcute htrigger
    have hempty : added = [] := hnone fun arg0 he => h.noProcess arg0 (by rw [hmail, he]; exact List.mem_cons_self)
    subst hempty
    refine h.handled_slave hmail hinert.on hinert.mailbox rfl nofun hcmds ?_
    rw [htrigger, hinert.settled_eq hadded]
    exact settled_cons hmail hexcute

/-- The step lemma. -/
theorem Inv.step {s s' : Sys} {e : Event} (h : Inv s) (hin : InTime e s) (hs : step e s = some s') : Inv s' := by
  cases e with
  | frame r windstate =>
    cases hs
    obtain ⟨added, hinert, hadded⟩ := processFrame_inert r windstate (h.on r)
    have hask : excutes added = [] ∧ setTriggers added = [] := by
      refine ⟨List.filterMap_eq_nil_iff.2 fun evt hevt => ?_, List.filterMap_eq_nil_iff.2 fun evt hevt => ?_⟩
      · rcases hadded evt hevt with rfl | rfl <;> rfl
      · rcases hadded evt hevt with rfl | rfl <;> rfl
    refine h.timer_step r hinert.on (hinert.settled_eq hask.1) ?_ fun arg0 hmem => ?_
    · rw [hinert.mailbox, setTriggers_append, hask.2, List.append_nil]
    · rw [hinert.mailbox] at hmem
      refine (List.mem_append.1 hmem).resolve_right fun hmem => ?_
      exact (hadded _ hmem).elim nofun nofun
  | deliver r =>
    simp only [Wnr.step] at hs
    split at hs
    · cases hs
    · rename_i cmd inbox hinbox
      cases hs
      exact h.deliver r hinbox
  | handle r current_ticks =>
    simp only [Wnr.step] at hs
    split at hs
    · cases hs
    · rename_i evt mailbox hmail
      cases hs
      cases r with
      | master => exact h.handle_master current_ticks hmail
      | slave => exact h.handle_slave hmail hin
  | timeout r =>
    simp only [Wnr.step] at hs
    split_ifs at hs with hrunning
    cases hs
    exact h.timer_step r ⟨(h.on r).localOn, (h.on r).peerOn⟩ (settled_timeout hrunning _) rfl fun _ hmem => hmem
  | handler r =>
    simp only [Wnr.step] at hs
    split_ifs at hs with hqueued
    cases hs
    have hsettled := settled_handler (h.on r) hqueued ⟨(s.side r).app_wnr_sync_timer.running, (s.side r).app_wnr_sync_timer.queued - 1⟩
    rw [appWnrSyncTimerHandler, if_pos (h.on r).localOn] at hsettled ⊢
    refine h.timer_step r ⟨(h.on r).localOn, (h.on r).peerOn⟩ hsettled ?_ fun arg0 hmem => ?_
    · exact (setTriggers_append ..).trans (List.append_nil _)
    · exact (List.mem_append.1 hmem).resolve_right (by simp)

/-- An earbud with nothing left to be done has applied what it comes to. -/
theorem settled_quiet {s : Side} (hmail : s.mailbox = []) (hpending : s.pending = false) : settled s = s.g_wind_st := by
  rw [settled, hpending, hmail]
  rfl

theorem Inv.agrees {s : Sys} (h : Inv s) : Agrees s := by
  intro hquiet r
  obtain ⟨hmail, hinbox, hpending⟩ := hquiet r
  rw [← settled_quiet hmail hpending]
  cases r with
  | master => exact h.master
  | slave =>
    have hcoming : coming s = [] := by simp [coming, hmail, hinbox, setTriggers]
    have hslave := h.slave
    rwa [hcoming] at hslave

instance (e : Event) (s : Sys) : Decidable (InTime e s) :=
  match e with
  | .handle .slave current_ticks =>
    match hhead : (s.side .slave).mailbox.head? with
    | some (.setTrigger state tg_ticks) =>
      decidable_of_iff (if tg_ticks > current_ticks then ticksPerMs ≤ (tg_ticks - current_ticks).toNat
          else (s.side .slave).pending = true → (s.side .slave).g_set_Windstate = state) <| by
        simp only [InTime, hhead, Option.some.injEq, Evt.setTrigger.injEq]
        exact ⟨fun h _ _ he => he.1 ▸ he.2 ▸ h, fun h => h _ _ ⟨rfl, rfl⟩⟩
    | none => .isTrue fun _ _ he => nomatch hhead.symm.trans he
    | some .notifyDetectResult => .isTrue fun _ _ he => nomatch hhead.symm.trans he
    | some .requestDetectResult => .isTrue fun _ _ he => nomatch hhead.symm.trans he
    | some (.responseDetectResult _) => .isTrue fun _ _ he => nomatch hhead.symm.trans he
    | some (.processDetectResult _) => .isTrue fun _ _ he => nomatch hhead.symm.trans he
    | some (.excuteTrigger _) => .isTrue fun _ _ he => nomatch hhead.symm.trans he
  | .handle .master _ | .frame .. | .deliver _ | .timeout _ | .handler _ => .isTrue trivial

/-- In every run in time both earbuds come to the last trigger. -/
theorem states_agree {s : Sys} {evs : List Event} (h : Run step InTime Init s evs) : Agrees s :=
  (h.inv Inv (fun _ => Inv.init) fun _ _ _ hinv hin hs => hinv.step hin hs).agrees

/-- An earbud in a call, after `anc_wnr_open` on both. -/
def openedSide : Side :=
  ⟨.configure, ⟨List.replicate 18 0, 0, 0⟩, 0, 0, 0, 0, 0, true, true, false, false, false, ⟨false, 0⟩, []⟩

def opened : Sys := ⟨fun _ => openedSide, fun _ => [], []⟩

theorem init_opened : ∀ s, some opened = some s → Init s := by
  rintro _ ⟨⟩
  exact ⟨fun _ => ⟨rfl, rfl⟩, fun _ => rfl, fun _ => rfl, fun _ => rfl, fun _ => rfl, rfl⟩

/-- The master detects wind and asks the slave, and sets a trigger that the slave handles at `ticks`. -/
def oneTrigger (ticks : UInt32) : List Event :=
  List.replicate 18 (.frame .master 1) ++
    [.handle .master 0, .deliver .slave, .handle .slave 0, .deliver .master, .handle .master 0, .handle .master 0,
      .deliver .slave, .handle .slave ticks, .timeout .master, .handler .master, .handle .master 0]

theorem states_agree_trigger : ∃ s evs, Run step InTime Init s evs ∧ s.triggers = [1] ∧ Agrees s := by
  obtain ⟨s, hrun, hgood⟩ := exists_run_of_check step InTime Init (some opened)
    (oneTrigger 100 ++ [.timeout .slave, .handler .slave, .handle .slave 0]) (fun s => s.triggers = [1]) init_opened
    (by decide +kernel)
  exact ⟨s, _, hrun, of_decide_eq_true hgood, states_agree hrun⟩

/-- The slave handles the trigger ten ticks before its target time: its timer is not started. -/
theorem slave_left_behind : ∃ s evs, Run step (fun _ _ => True) Init s evs ∧
    (Quiet s ∧ s.triggers = [1] ∧ (s.side .master).g_wind_st = 1 ∧ (s.side .slave).g_wind_st = 0) ∧ ¬ Agrees s := by
  obtain ⟨s, hrun, hgood⟩ := exists_run_of_check step (fun _ _ => True) Init (some opened) (oneTrigger 4790)
    (fun s => ([Role.master, .slave].all fun r =>
        decide ((s.side r).mailbox = [] ∧ s.inbox r = [] ∧ (s.side r).pending = false)) ∧
      s.triggers = [1] ∧ (s.side .master).g_wind_st = 1 ∧ (s.side .slave).g_wind_st = 0) init_opened (by decide +kernel)
  obtain ⟨hall, htriggers, hmaster, hslave⟩ := of_decide_eq_true hgood
  have hquiet : Quiet s := by
    intro r
    refine of_decide_eq_true (List.all_eq_true.1 hall r ?_)
    cases r <;> simp
  refine ⟨s, _, hrun, ⟨hquiet, htriggers, hmaster, hslave⟩, fun h => ?_⟩
  have hlast : lastTrigger s = 1 := by simp [lastTrigger, htriggers]
  exact absurd ((hslave.symm.trans (h hquiet .slave)).trans hlast) (by decide)

end Wnr
