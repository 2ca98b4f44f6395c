import LittleBuddy.Lib.Runs
import LittleBuddy.Lib.Mru
/-!
# The supervision of commands

The commands of `services/tota/app_tota_cmd_handler.cpp` that wait for a
response: an array of entries, sorted by the time they have left, with a
counter. `entries` is the list that it holds. Adding a command keeps that list
right if no command that waits has more time left than the new one.

A `none` stands for a failed `ASSERT`.
-/
open Slots Runs

namespace Tota.Cmd

/-- `APP_TOTA_CMD_INSTANCE_T`, without its handlers. -/
structure CmdInstance where
  cmdCode : Nat
  isNeedResponse : Bool
  timeoutWaitingRspInMs : Nat

/-- `APP_TOTA_CMD_WAITING_RSP_SUPERVISOR_T`. -/
structure RspSupervisor where
  entryIndex : Nat
  msTillTimeout : Nat
  deriving DecidableEq

/-- `APP_TOTA_CMD_HANDLER_ENV_T`, without the handles of the operating system. -/
structure CmdHandlerEnv where
  waitingRspTimeoutInstance : Nat → RspSupervisor
  lastSysTicks : UInt32
  timeoutSupervisorCount : Nat

/-- `APP_TOTA_CMD_HANDLER_WAITING_RSP_TIMEOUT_SUPERVISOR_COUNT`. -/
abbrev supervisorCount : Nat := 8

/-- `app_tota_cmd_handler_init`. -/
def cmdHandlerInit : CmdHandlerEnv := ⟨fun _ => ⟨0, 0⟩, 0, 0⟩

section

-- The command table, and `TICKS_TO_MS`.
variable (table : List CmdInstance) (ticksToMs : UInt32 → Nat)

/-- `app_tota_cmd_handler_get_entry_index_from_cmd_code`. -/
def getEntryIndexFromCmdCode (cmdCode : Nat) : Option Nat := table.findIdx? fun inst => inst.cmdCode == cmdCode

/-- An entry after `deltaMs`. -/
def RspSupervisor.elapse (deltaMs : Nat) (x : RspSupervisor) : RspSupervisor :=
  { x with msTillTimeout := if x.msTillTimeout > deltaMs then x.msTillTimeout - deltaMs else 0 }

/-- The ticks from `last` to `current`, once round the counter at most. -/
def passedTicks (last current : UInt32) : UInt32 :=
  if current ≥ last then current - last else (0xFFFFFFFF - last + 1) + current

/-- `app_tota_cmd_refresh_supervisor_env`, which reads the ticks twice. -/
def refreshSupervisorEnv (t₀ t₁ : UInt32) (env : CmdHandlerEnv) : CmdHandlerEnv :=
  let env :=
    if env.timeoutSupervisorCount > 0 then
      let deltaMs := ticksToMs (passedTicks env.lastSysTicks t₀)
      { env with waitingRspTimeoutInstance := fun index =>
          if index < env.timeoutSupervisorCount then (env.waitingRspTimeoutInstance index).elapse deltaMs
          else env.waitingRspTimeoutInstance index }
    else env
  { env with lastSysTicks := t₁ }

/-- `app_tota_cmd_handler_remove_waiting_rsp_timeout_supervision`. -/
def removeWaitingRspTimeoutSupervision (entryIndex : Nat) (t₀ t₁ : UInt32) (env : CmdHandlerEnv) :
    Option CmdHandlerEnv :=
  if env.timeoutSupervisorCount > 0 then
    match search RspSupervisor.entryIndex entryIndex env.waitingRspTimeoutInstance env.timeoutSupervisorCount with
    | none => some env
    | some index =>
      let env := { env with
        waitingRspTimeoutInstance :=
          shiftDown env.waitingRspTimeoutInstance index (env.timeoutSupervisorCount - index - 1)
        timeoutSupervisorCount := env.timeoutSupervisorCount - 1 }
      some (if env.timeoutSupervisorCount > 0 then refreshSupervisorEnv ticksToMs t₀ t₁ env else env)
  else none

/-- The loop of `app_tota_cmd_handler_add_waiting_rsp_timeout_supervision` over
the first entries of `src`: the array that it fills, and `insertedIndex`. -/
def insertLoop (entryIndex timeoutInMs : Nat) (src : Nat → RspSupervisor) : Nat → (Nat → RspSupervisor) × Nat
  | 0 => (fun _ => ⟨0, 0⟩, 0)
  | index + 1 =>
    let (dst, insertedIndex) := insertLoop entryIndex timeoutInMs src index
    let x := src index
    if x.entryIndex ≠ entryIndex ∧ timeoutInMs ≥ x.msTillTimeout then
      (Function.update dst insertedIndex x, insertedIndex + 1)
    else if timeoutInMs < x.msTillTimeout then
      (Function.update dst insertedIndex ⟨entryIndex, timeoutInMs⟩, insertedIndex + 1)
    else (dst, insertedIndex)

/-- `app_tota_cmd_handler_add_waiting_rsp_timeout_supervision`. The test whether
the new entry is the biggest one compares the loop's index with its bound. -/
def addWaitingRspTimeoutSupervision (entryIndex : Nat) (t₀ t₁ : UInt32) (env : CmdHandlerEnv) :
    Option CmdHandlerEnv :=
  if env.timeoutSupervisorCount < supervisorCount then
    let env := refreshSupervisorEnv ticksToMs t₀ t₁ env
    table[entryIndex]?.map fun pInstance =>
      let (dst, insertedIndex) := insertLoop entryIndex pInstance.timeoutWaitingRspInMs
        env.waitingRspTimeoutInstance env.timeoutSupervisorCount
      let dst := Function.update dst insertedIndex ⟨entryIndex, pInstance.timeoutWaitingRspInMs⟩
      let insertedIndex := insertedIndex + 1
      { env with
        waitingRspTimeoutInstance := fun j => if j < insertedIndex then dst j else env.waitingRspTimeoutInstance j
        timeoutSupervisorCount := insertedIndex }
  else none

/-- `app_tota_get_cmd_response_handler`, for a response that is not too long. -/
def getCmdResponseHandler (cmdCodeToRsp : Nat) (t₀ t₁ : UInt32) (env : CmdHandlerEnv) : Option CmdHandlerEnv :=
  if env.timeoutSupervisorCount = 0 then some env
  else
    match getEntryIndexFromCmdCode table cmdCodeToRsp with
    | none => some env
    | some entryIndex => removeWaitingRspTimeoutSupervision ticksToMs entryIndex t₀ t₁ env

/-- `app_tota_cmd_handler_rsp_supervision_timer_cb`, with the command whose
response handler it calls. -/
def rspSupervisionTimerCb (t₀ t₁ : UInt32) (env : CmdHandlerEnv) : Option (Nat × CmdHandlerEnv) :=
  let entryIndex := (env.waitingRspTimeoutInstance 0).entryIndex
  (removeWaitingRspTimeoutSupervision ticksToMs entryIndex t₀ t₁ env).map fun env => (entryIndex, env)

/-! ## Runs -/

/-- What happens, and the ticks that are read meanwhile. -/
inductive Event where
  /-- A command that waits for a response is sent. -/
  | add (entryIndex : Nat) (t₀ t₁ : UInt32)
  | response (cmdCodeToRsp : Nat) (t₀ t₁ : UInt32)
  | timeout (t₀ t₁ : UInt32)

/-- The environment, and the commands that wait: those that were added, and
neither had a response since nor a time-out. -/
structure Supervision where
  env : CmdHandlerEnv
  pending : List Nat

/-- An event. A time-out may come at any time. -/
def step : Event → Supervision → Option Supervision
  | .add entryIndex t₀ t₁, s =>
    (addWaitingRspTimeoutSupervision table ticksToMs entryIndex t₀ t₁ s.env).map fun env =>
      ⟨env, entryIndex :: s.pending.erase entryIndex⟩
  | .response cmdCode t₀ t₁, s =>
    (getCmdResponseHandler table ticksToMs cmdCode t₀ t₁ s.env).map fun env =>
      ⟨env, match getEntryIndexFromCmdCode table cmdCode with
        | none => s.pending
        | some entryIndex => s.pending.erase entryIndex⟩
  | .timeout t₀ t₁, s =>
    (rspSupervisionTimerCb ticksToMs t₀ t₁ s.env).map fun (entryIndex, env) => ⟨env, s.pending.erase entryIndex⟩

/-- The entries of the list. -/
def entries (env : CmdHandlerEnv) : List RspSupervisor :=
  view env.waitingRspTimeoutInstance env.timeoutSupervisorCount

/-- An added command has at least as much time as each one that waits has left. -/
def LongestTimeout : Event → Supervision → Prop
  | .add entryIndex t₀ t₁, s => ∀ inst ∈ table[entryIndex]?, ∀ x ∈ entries (refreshSupervisorEnv ticksToMs t₀ t₁ s.env),
      x.msTillTimeout ≤ inst.timeoutWaitingRspInMs
  | _, _ => True

/-- One entry for each command that waits, sorted by the time left. -/
structure Supervises (s : Supervision) : Prop where
  perm : ((entries s.env).map RspSupervisor.entryIndex).Perm s.pending
  nodup : s.pending.Nodup
  sorted : (entries s.env).Pairwise fun x y => x.msTillTimeout ≤ y.msTillTimeout

/-! ## What the operations do to the list -/

variable {table ticksToMs} {env env' : CmdHandlerEnv} {i d : Nat} {t₀ t₁ : UInt32}

@[simp] theorem elapse_entryIndex (x : RspSupervisor) : (x.elapse d).entryIndex = x.entryIndex := rfl

/-- Time passes for all entries alike. -/
theorem elapse_le {x y : RspSupervisor} (h : x.msTillTimeout ≤ y.msTillTimeout) :
    (x.elapse d).msTillTimeout ≤ (y.elapse d).msTillTimeout := by
  simp only [RspSupervisor.elapse]
  split_ifs <;> omega

theorem elapse_zero (x : RspSupervisor) : x.elapse 0 = x := by
  cases x
  simp only [RspSupervisor.elapse, RspSupervisor.mk.injEq, true_and]
  split_ifs <;> omega

theorem map_elapse_zero (l : List RspSupervisor) : l.map (RspSupervisor.elapse 0) = l := List.map_id'' elapse_zero l

theorem entries_refresh (ticksToMs : UInt32 → Nat) (t₀ t₁ : UInt32) (env : CmdHandlerEnv) :
    ∃ d, entries (refreshSupervisorEnv ticksToMs t₀ t₁ env) = (entries env).map (RspSupervisor.elapse d) := by
  unfold refreshSupervisorEnv
  by_cases hpos : env.timeoutSupervisorCount > 0
  · refine ⟨ticksToMs (passedTicks env.lastSysTicks t₀), ?_⟩
    rw [if_pos hpos, entries, entries, map_view]
    apply view_congr
    intro j hj
    exact if_pos hj
  · refine ⟨0, ?_⟩
    rw [if_neg hpos, map_elapse_zero]
    rfl

/-- A removal takes out the entry of the command, and time passes for the others. -/
theorem entries_remove (hd : ((entries env).map RspSupervisor.entryIndex).Nodup)
    (h : removeWaitingRspTimeoutSupervision ticksToMs i t₀ t₁ env = some env') :
    ∃ d, entries env' = (Mru.drop RspSupervisor.entryIndex i (entries env)).map (RspSupervisor.elapse d) := by
  unfold removeWaitingRspTimeoutSupervision at h
  split_ifs at h
  cases hs : search RspSupervisor.entryIndex i env.waitingRspTimeoutInstance env.timeoutSupervisorCount with
  | none =>
    simp only [hs, Option.some.injEq] at h
    subst h
    refine ⟨0, ?_⟩
    rw [map_elapse_zero]
    exact (Mru.drop_of_notMem (search_none hs)).symm
  | some index =>
    simp only [hs, Option.some.injEq] at h
    subst h
    have hview := view_shiftDown (a := env.waitingRspTimeoutInstance) (search_some hs).1
    rw [Mru.search_drop hd hs] at hview
    split_ifs
    · obtain ⟨d, hr⟩ := entries_refresh ticksToMs t₀ t₁ { env with
        waitingRspTimeoutInstance :=
          shiftDown env.waitingRspTimeoutInstance index (env.timeoutSupervisorCount - index - 1)
        timeoutSupervisorCount := env.timeoutSupervisorCount - 1 }
      refine ⟨d, ?_⟩
      rw [hr]
      exact congrArg _ hview
    · refine ⟨0, ?_⟩
      rw [map_elapse_zero]
      exact hview

/-- What the loop puts into the new array for an entry. -/
def place (entryIndex timeoutInMs : Nat) (x : RspSupervisor) : List RspSupervisor :=
  if x.entryIndex ≠ entryIndex ∧ timeoutInMs ≥ x.msTillTimeout then [x]
  else if timeoutInMs < x.msTillTimeout then [⟨entryIndex, timeoutInMs⟩] else []

theorem view_insertLoop (t : Nat) (src : Nat → RspSupervisor) (n : Nat) :
    view (insertLoop i t src n).1 (insertLoop i t src n).2 = (view src n).flatMap (place i t) := by
  induction n with
  | zero => rfl
  | succ n ih =>
    rw [view_succ, List.flatMap_append, ← ih]
    simp only [insertLoop, List.flatMap_cons, List.flatMap_nil, List.append_nil, place]
    split_ifs
    · exact view_update_end _
    · exact view_update_end _
    · rw [List.append_nil]

theorem entries_add {inst : CmdInstance} (hi : table[i]? = some inst)
    (h : addWaitingRspTimeoutSupervision table ticksToMs i t₀ t₁ env = some env') :
    entries env' = (entries (refreshSupervisorEnv ticksToMs t₀ t₁ env)).flatMap (place i inst.timeoutWaitingRspInMs) ++
      [⟨i, inst.timeoutWaitingRspInMs⟩] := by
  unfold addWaitingRspTimeoutSupervision at h
  split_ifs at h
  simp only [hi, Option.map_some, Option.some.injEq] at h
  subst h
  simp only [entries]
  rw [← view_insertLoop, ← view_update_end]
  apply view_congr
  intro j hj
  exact if_pos hj

/-- If the new command has the longest time, the loop only drops its old entry. -/
theorem flatMap_place {t : Nat} {l : List RspSupervisor} (h : ∀ x ∈ l, x.msTillTimeout ≤ t) :
    l.flatMap (place i t) = Mru.drop RspSupervisor.entryIndex i l := by
  induction l with
  | nil => rfl
  | cons x l ih =>
    have hx := h x List.mem_cons_self
    rw [List.flatMap_cons, ih fun y hy => h y (List.mem_cons_of_mem _ hy)]
    by_cases hi : x.entryIndex = i
    · have hp : place i t x = [] := by
        unfold place
        rw [if_neg (fun hc => hc.1 hi), if_neg (by omega)]
      rw [hp]
      simp [Mru.drop, hi]
    · have hp : place i t x = [x] := by
        unfold place
        rw [if_pos ⟨hi, hx⟩]
      rw [hp]
      simp [Mru.drop, hi]

/-! ## Every run -/

variable {s s' : Supervision}

/-- Dropping an entry, and erasing its command. -/
theorem Supervises.drop (hs : Supervises s) (i d : Nat) :
    (((Mru.drop RspSupervisor.entryIndex i (entries s.env)).map (RspSupervisor.elapse d)).map
      RspSupervisor.entryIndex).Perm (s.pending.erase i) ∧
    ((Mru.drop RspSupervisor.entryIndex i (entries s.env)).map (RspSupervisor.elapse d)).Pairwise
      fun x y => x.msTillTimeout ≤ y.msTillTimeout := by
  constructor
  · have hn : ((entries s.env).map RspSupervisor.entryIndex).Nodup := hs.perm.nodup_iff.2 hs.nodup
    have he : ((Mru.drop RspSupervisor.entryIndex i (entries s.env)).map (RspSupervisor.elapse d)).map
        RspSupervisor.entryIndex = ((entries s.env).map RspSupervisor.entryIndex).erase i := by
      rw [hn.erase_eq_filter, List.map_map, Mru.drop, List.filter_map]
      congr 1
      apply List.filter_congr
      intro x _
      by_cases hx : x.entryIndex = i <;> simp [hx]
    rw [he]
    exact hs.perm.erase i
  · rw [List.pairwise_map]
    exact (hs.sorted.sublist Mru.drop_sublist).imp elapse_le

theorem Supervises.remove (hs : Supervises s)
    (h : removeWaitingRspTimeoutSupervision ticksToMs i t₀ t₁ s.env = some env') :
    Supervises ⟨env', s.pending.erase i⟩ := by
  obtain ⟨d, he⟩ := entries_remove (hs.perm.nodup_iff.2 hs.nodup) h
  obtain ⟨hp, hsort⟩ := hs.drop i d
  exact ⟨he ▸ hp, hs.nodup.erase i, he ▸ hsort⟩

/-- An added command goes to the end of the list. -/
theorem Supervises.add (hs : Supervises s) (hc : LongestTimeout table ticksToMs (.add i t₀ t₁) s)
    (h : addWaitingRspTimeoutSupervision table ticksToMs i t₀ t₁ s.env = some env') :
    Supervises ⟨env', i :: s.pending.erase i⟩ := by
  obtain ⟨inst, hi⟩ : ∃ inst, table[i]? = some inst := by
    unfold addWaitingRspTimeoutSupervision at h
    split_ifs at h
    obtain ⟨inst, hi, -⟩ := Option.map_eq_some_iff.1 h
    exact ⟨inst, hi⟩
  have hle := hc inst hi
  obtain ⟨d, hr⟩ := entries_refresh ticksToMs t₀ t₁ s.env
  have he := entries_add hi h
  rw [flatMap_place hle, hr, Mru.drop, List.filter_map] at he
  rw [hr] at hle
  -- the entries that stay are those of the other commands
  have hrest : entries env' = (Mru.drop RspSupervisor.entryIndex i (entries s.env)).map (RspSupervisor.elapse d) ++
      [⟨i, inst.timeoutWaitingRspInMs⟩] := he
  obtain ⟨hp, hsort⟩ := hs.drop i d
  refine ⟨?_, ?_, ?_⟩
  · simp only [hrest, List.map_append, List.map_cons, List.map_nil]
    exact (List.perm_append_singleton _ _).trans (hp.cons i)
  · exact List.nodup_cons.2 ⟨hs.nodup.not_mem_erase, hs.nodup.erase i⟩
  · simp only [hrest]
    refine List.pairwise_append.2 ⟨hsort, List.pairwise_singleton _ _, ?_⟩
    intro x hx y hy
    rw [List.mem_singleton.1 hy]
    exact hle x (List.map_subset _ Mru.drop_sublist.subset hx)

theorem Supervises.step {e : Event} (hs : Supervises s) (hc : LongestTimeout table ticksToMs e s)
    (h : step table ticksToMs e s = some s') : Supervises s' := by
  cases e with
  | add i t₀ t₁ =>
    obtain ⟨env', he, rfl⟩ := Option.map_eq_some_iff.1 h
    exact hs.add hc he
  | response code t₀ t₁ =>
    obtain ⟨env', he, rfl⟩ := Option.map_eq_some_iff.1 h
    unfold getCmdResponseHandler at he
    cases hi : getEntryIndexFromCmdCode table code with
    | none =>
      simp only [hi, ite_self, Option.some.injEq] at he
      exact he ▸ hs
    | some i =>
      simp only [hi] at he
      split_ifs at he with hzero
      · -- nothing waits
        obtain rfl := Option.some.inj he
        have hnil : entries s.env = [] := by
          rw [← List.length_eq_zero_iff, entries, length_view, hzero]
        have hp := hs.perm
        rw [hnil, List.map_nil, List.nil_perm] at hp
        show Supervises ⟨s.env, s.pending.erase i⟩
        rw [hp, List.erase_nil, ← hp]
        exact hs
      · exact hs.remove he
  | timeout t₀ t₁ =>
    obtain ⟨⟨i, env'⟩, he, rfl⟩ := Option.map_eq_some_iff.1 h
    obtain ⟨env'', he, hi⟩ := Option.map_eq_some_iff.1 he
    cases hi
    exact hs.remove he

/-- The list at the start. -/
def init (s : Supervision) : Prop := s = ⟨cmdHandlerInit, []⟩

/-- The supervision list has one entry for each command that waits, sorted by
the time left, as long as no command is added that has less time than one that
waits. -/
theorem supervises_run {evs : List Event}
    (h : Run (step table ticksToMs) (LongestTimeout table ticksToMs) init s evs) : Supervises s := by
  refine h.inv Supervises ?_ fun e s s' hs hc ht => hs.step hc ht
  rintro _ rfl
  exact ⟨List.Perm.refl _, List.nodup_nil, List.Pairwise.nil⟩

instance (e : Event) (s : Supervision) : Decidable (LongestTimeout table ticksToMs e s) :=
  match e with
  | .add i t₀ t₁ =>
    match hi : table[i]? with
    | none => .isTrue fun inst h => by simp [hi] at h
    | some inst =>
      decidable_of_iff (∀ x ∈ entries (refreshSupervisorEnv ticksToMs t₀ t₁ s.env),
        x.msTillTimeout ≤ inst.timeoutWaitingRspInMs) (by simp [LongestTimeout, hi])
  | .response .. | .timeout .. => .isTrue trivial

end

/-- Two commands, and 16 ticks in a millisecond. -/
def exampleTable : List CmdInstance := [⟨0x6300, true, 100⟩, ⟨0x6302, true, 50⟩]

def exampleTicksToMs (ticks : UInt32) : Nat := ticks.toNat / 16

theorem supervises_run_example : ∃ s : Supervision, Supervises s ∧ s.pending = [1, 0] := by
  obtain ⟨s, hrun, hgood⟩ := exists_run_of_check (step exampleTable exampleTicksToMs)
    (LongestTimeout exampleTable exampleTicksToMs) init (some ⟨cmdHandlerInit, []⟩)
    [.add 0 0 0, .add 1 1600 1600, .response 0x6300 1600 1600, .add 0 1600 1616, .response 0x6302 1700 1700, .add 0 1700 1700,
      .timeout 3300 3300, .add 0 3300 3300, .add 1 4900 4900]
    (fun s => s.pending == [1, 0]) (by rintro _ ⟨⟩; rfl) (by decide +kernel)
  exact ⟨s, supervises_run hrun, by simpa using hgood⟩

/-- A command with less time takes the place of the one that waits, twice. -/
theorem supervision_lost : ¬ ∀ (table : List CmdInstance) (ticksToMs : UInt32 → Nat) (s : Supervision)
    (evs : List Event), Run (step table ticksToMs) (fun _ _ => True) init s evs → Supervises s := by
  intro hclaim
  obtain ⟨s, hrun, hgood⟩ := exists_run_of_check (step exampleTable exampleTicksToMs) (fun _ _ => True) init
    (some ⟨cmdHandlerInit, []⟩) [.add 0 0 0, .add 1 16 16]
    (fun s => s.pending == [1, 0] && (entries s.env).map RspSupervisor.entryIndex == [1, 1])
    (by rintro _ ⟨⟩; rfl) (by decide +kernel)
  simp only [Bool.and_eq_true, beq_iff_eq] at hgood
  have hp := (hclaim _ _ s _ hrun).perm
  rw [hgood.1, hgood.2] at hp
  exact absurd hp (by decide)

end Tota.Cmd
