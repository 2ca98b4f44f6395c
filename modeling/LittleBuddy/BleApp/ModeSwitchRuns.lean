import LittleBuddy.BleApp.ModeSwitch
/-!
# The latest request wins

One command is under way at most, and the operation that waits for its answer
is the latest request. Both hold as long as no failure is handled with an
operation pending, and no connection starts with its own request pending: a
failure leaves the operation in place, and it is carried out after a later one.
-/
open Runs

namespace BleApp.ModeSwitch

/-! ## Commands and answers -/

/-- The commands that lead to a state. -/
def BleState.commands : BleState → List Cmd
  | .startingAdv => [.startAdv, .updateAdv]
  | .startingScan => [.startScan]
  | .startingConnect => [.startConnect]
  | .stoppingAdv => [.stopAdv]
  | .stoppingScan => [.stopScan]
  | .stoppingConnect => [.stopConnect]
  | _ => []

/-- What may be queued for the answer to them. -/
def BleState.outcomes : BleState → List Fn
  | .startingAdv => [.switchActivities, .advFailed]
  | .startingScan => [.switchActivities, .scanFailed]
  | .startingConnect => [.switchActivities, .connectFailed]
  | .stoppingAdv | .stoppingScan | .stoppingConnect => [.switchActivities]
  | _ => []

def isAnswer : Fn → Bool
  | .switchActivities | .advFailed | .scanFailed | .connectFailed => true
  | _ => false

/-- A state with the commands not answered and the answers not handled. -/
inductive Expects : BleState → List Cmd → List Fn → Prop
  | rest {st} : st.commands = [] → Expects st [] []
  | command {st c} : c ∈ st.commands → Expects st [c] []
  | answer {st f} : f ∈ st.outcomes → Expects st [] [f]

/-- No answer is awaited where no command leads to the state. -/
theorem Expects.at_rest {st cs fs} (h : Expects st cs fs) (hst : st.commands = []) : cs = [] ∧ fs = [] := by
  cases h with
  | rest => exact ⟨rfl, rfl⟩
  | command hc => exact absurd (hst ▸ hc) List.not_mem_nil
  | answer hf =>
    cases st with
    | startingAdv | startingScan | startingConnect | stoppingAdv | stoppingScan | stoppingConnect => simp [BleState.commands] at hst
    | idle | advertising | scanning | connecting => simp [BleState.outcomes] at hf

/-- A command is handed to the stack only at rest, for the state it leads to. -/
theorem Expects.hand {st st' cs fs c} (h : Expects st cs fs) (hst : st.commands = []) (hc : c ∈ st'.commands) :
    Expects st' (cs ++ [c]) fs := by
  obtain ⟨rfl, rfl⟩ := h.at_rest hst
  exact .command hc

/-- The answer to a command is one that its state expects. -/
theorem Expects.answered {st c cs fs} (h : Expects st (c :: cs) fs) : c ∈ st.commands ∧ cs = [] ∧ fs = [] := by
  cases h with
  | command hc => exact ⟨hc, rfl, rfl⟩

/-- The answer that runs is the only one. -/
theorem Expects.handled {st f cs fs} (h : Expects st cs (f :: fs)) : f ∈ st.outcomes ∧ cs = [] ∧ fs = [] := by
  cases h with
  | answer hf => exact ⟨hf, rfl, rfl⟩

/-! ## The invariant -/

def scanOf : Fn → Option ScanParam
  | .startScan p => some p
  | _ => none

/-- No scan and no stop is queued: they change what is wanted, and a scan has set
its parameters before it runs. -/
def Firm (queue : List Fn) : Prop := ∀ f ∈ queue, scanOf f = none ∧ f ≠ .stopAll

/-- What is in progress or under way is wanted. -/
def InProgress (s : Sys) : Prop :=
  match s.state with
  | .advertising => s.wanted = .adv s.advInfo
  | .startingAdv => .advFailed ∈ s.queue ∨ s.wanted = .adv s.advInfo
  | .scanning | .startingScan => s.wanted = .scan s.scanInfo
  | .idle | .stoppingAdv | .stoppingScan | .stoppingConnect => s.wanted = .idle
  | .connecting | .startingConnect => True

/-- The operation `op`, once pending, leads to what is wanted. -/
def Leads (op : BleOp) (s : Sys) : Prop :=
  match op with
  | .startAdv => s.wanted = .adv s.advParam
  | .startScan => s.wanted = .scan s.scanParam
  | .startConnect => True
  | .stopAdv | .stopScan | .stopConnect => s.wanted = .idle
  | .idle => InProgress s

/-- Where an operation may be pending. -/
def Fits (s : Sys) : Prop :=
  match s.state with
  | .idle | .advertising | .scanning => s.op = .idle
  | .startingAdv | .startingScan => s.op = .idle → s.superseded = false
  | .startingConnect => s.op ≠ .idle
  | .stoppingAdv | .stoppingScan | .stoppingConnect => True
  | .connecting => False

/-- The parameters of the last scan that is queued are in `scanParam`. -/
def LastScan (queue : List Fn) (p : ScanParam) : Prop := ∀ q ∈ (queue.filterMap scanOf).getLast?, q = p

/-- What holds while a function runs, between its steps. -/
structure Ready (s : Sys) : Prop where
  expects : Expects s.state s.unanswered (s.queue.filter isAnswer)
  last : LastScan s.queue s.scanParam
  idle_op : s.state = .idle → s.op = .idle

structure Inv (s : Sys) : Prop where
  expects : Expects s.state s.unanswered (s.queue.filter isAnswer)
  last : LastScan s.queue s.scanParam
  fits : Fits s
  leads : Firm s.queue → Leads s.op s

theorem Inv.init {s : Sys} (h : Init s) : Inv s := by
  obtain ⟨hst, hop, hun, hq, hw, -⟩ := h
  refine ⟨?_, ?_, ?_, ?_⟩
  · rw [hst, hun, hq]
    exact .rest rfl
  · simp [LastScan, hq]
  · simp [Fits, hst, hop]
  · intro _
    simp [Leads, InProgress, hst, hop, hw]

/-- Everything at rest, the invariant is what was to be shown. -/
theorem Inv.settled {s : Sys} (hi : Inv s) : Settled s := by
  intro hun hq
  have he := hi.expects
  have hl := hi.leads (by simp [Firm, hq])
  have hf := hi.fits
  rw [hun, hq] at he
  cases hst : s.state with
  | idle | advertising | scanning =>
    simp only [Fits, hst] at hf
    simp only [hf, Leads, InProgress, hst] at hl
    exact ⟨hf, by simp [activity, hst, hl]⟩
  | connecting => simp [Fits, hst] at hf
  | startingAdv | startingScan | startingConnect | stoppingAdv | stoppingScan | stoppingConnect =>
    rw [hst] at he
    cases he with
    | rest h => simp [BleState.commands] at h

theorem Inv.ready {s : Sys} (hi : Inv s) : Ready s := by
  refine ⟨hi.expects, hi.last, ?_⟩
  intro hst
  simpa only [Fits, hst] using hi.fits

/-! ## The handlers -/

/-- Where an operation leads depends on what is wanted and on the parameters. -/
theorem Leads.congr {op : BleOp} {s t : Sys} (h : Leads op s) (hop : op ≠ .idle) (hw : t.wanted = s.wanted)
    (ha : t.advParam = s.advParam) (hs : t.scanParam = s.scanParam) : Leads op t := by
  cases op with
  | idle => exact absurd rfl hop
  | startAdv | startScan | startConnect | stopAdv | stopScan | stopConnect => simp_all only [Leads]

def BleState.Stopping (st : BleState) : Prop := st = .stoppingAdv ∨ st = .stoppingScan ∨ st = .stoppingConnect

/-- An operation waits for the answer to a command; none does only while stopping. -/
theorem inv_wait {s : Sys} {op : BleOp} (hr : Ready s) (hst : s.state.commands ≠ []) (hop : op = .idle → s.state.Stopping)
    (hl : Firm s.queue → Leads op s) : Inv { s with op := op } := by
  refine { expects := hr.expects, last := hr.last, fits := ?_, leads := fun hf => ?_ }
  · cases h : s.state <;> simp_all [Fits, BleState.commands, BleState.Stopping]
  · cases op <;> exact hl hf

/-- An activity is stopped, with an operation pending or none. -/
theorem inv_stop {s : Sys} {st : BleState} {op : BleOp} {c : Cmd} (hr : Ready s) (h₀ : s.state.commands = [])
    (hst : st.Stopping) (hc : c ∈ st.commands) (hl : Firm s.queue → Leads op { s with state := st }) :
    Inv ({ s with state := st, op := op }.hand c) := by
  refine { expects := hr.expects.hand h₀ hc, last := hr.last, fits := ?_, leads := fun hf => ?_ }
  · rcases hst with rfl | rfl | rfl <;> trivial
  · rcases hst with rfl | rfl | rfl <;> cases op <;> exact hl hf

theorem startOrWait_inv {op : BleOp} {start : Sys → Sys} {s : Sys} (hr : Ready s) (hop : op ≠ .idle)
    (hl : Firm s.queue → Leads op s) (hi : s.state = .idle → Inv (start s)) : Inv (startOrWait op start s) := by
  have hstop (st : BleState) (hf : Firm s.queue) : Leads op { s with state := st } := (hl hf).congr hop rfl rfl rfl
  unfold startOrWait
  split
  · rename_i h
    exact inv_stop hr (by rw [h]; rfl) (.inl rfl) List.mem_cons_self (hstop _)
  · rename_i h
    exact inv_stop hr (by rw [h]; rfl) (.inr (.inl rfl)) List.mem_cons_self (hstop _)
  · rename_i h
    exact inv_stop hr (by rw [h]; rfl) (.inr (.inr rfl)) List.mem_cons_self (hstop _)
  · rename_i h
    exact hi h
  · refine inv_wait hr ?_ (fun h => absurd h hop) hl
    cases h : s.state <;> simp_all [BleState.commands]

theorem bleStartAdv_inv {allowed : Bool} {s : Sys} (hr : Ready s) (hl : Firm s.queue → s.wanted = .adv s.advParam) :
    Inv (bleStartAdv allowed s) := by
  refine startOrWait_inv hr BleOp.noConfusion hl ?_
  intro hst
  have hop := hr.idle_op hst
  have he := hr.expects
  rw [hst] at he
  cases allowed with
  | true =>
    refine { expects := he.hand rfl List.mem_cons_self, last := hr.last, fits := fun _ => rfl, leads := ?_ }
    intro hf
    simp only [Sys.hand, if_true, hop]
    exact Or.inr (hl hf)
  | false =>
    -- nothing is in progress, so there is nothing to stop
    have hs : bleAdvIsAllowed false s = s := by simp [bleAdvIsAllowed, appBleStopActivities, hst]
    simp only [hs, hop, Bool.false_eq_true, if_false, ite_self]
    refine { expects := hr.expects, last := hr.last, fits := ?_, leads := fun _ => ?_ }
    · simp [Fits, hst]
    · simp [Leads, InProgress, hst]

theorem bleStartScan_inv {s : Sys} (hr : Ready s) (hl : Firm s.queue → s.wanted = .scan s.scanParam) :
    Inv (bleStartScan s) := by
  refine startOrWait_inv hr BleOp.noConfusion hl ?_
  intro hst
  have he := hr.expects
  rw [hst] at he
  refine { expects := he.hand rfl List.mem_cons_self, last := hr.last, fits := fun _ => rfl, leads := ?_ }
  intro hf
  simp only [Sys.hand, hr.idle_op hst]
  exact hl hf

/-- A connection is requested anywhere but during another. -/
theorem bleStartConnect_inv {s : Sys} (hr : Ready s) (hst : s.state ≠ .connecting) : Inv (bleStartConnect s) := by
  unfold bleStartConnect
  dsimp only
  split
  · rename_i h
    exact inv_stop hr (by rw [h]; rfl) (.inl rfl) List.mem_cons_self (fun _ => trivial)
  · rename_i h
    exact inv_stop hr (by rw [h]; rfl) (.inr (.inl rfl)) List.mem_cons_self (fun _ => trivial)
  · rename_i h
    have he := hr.expects
    rw [h] at he
    exact { expects := he.hand rfl List.mem_cons_self, last := hr.last, fits := BleOp.noConfusion, leads := fun _ => trivial }
  · refine inv_wait hr ?_ BleOp.noConfusion (fun _ => trivial)
    cases h : s.state <;> simp_all [BleState.commands]

/-- Idle, and nothing is wanted. -/
theorem inv_idle {s : Sys} (hr : Ready s) (hst : s.state = .idle) (hl : Firm s.queue → s.wanted = .idle) : Inv s := by
  have hop := hr.idle_op hst
  refine { expects := hr.expects, last := hr.last, fits := ?_, leads := fun hf => ?_ }
  · simpa only [Fits, hst] using hop
  · simpa only [Leads, hop, InProgress, hst] using hl hf

theorem bleStopAllActivities_inv {s : Sys} (hr : Ready s) (hl : Firm s.queue → s.wanted = .idle) :
    Inv (bleStopAllActivities s) := by
  have hstop (st : BleState) (hst : st.Stopping) (hf : Firm s.queue) : Leads .idle { s with state := st } := by
    rcases hst with rfl | rfl | rfl <;> exact hl hf
  have hwait (hst : s.state.Stopping) : Inv { s with op := .idle } := by
    refine inv_wait hr ?_ (fun _ => hst) (hstop s.state hst)
    rcases hst with h | h | h <;> rw [h] <;> exact List.cons_ne_nil _ _
  unfold bleStopAllActivities
  split <;> rename_i h
  · exact inv_stop hr (by rw [h]; rfl) (.inl rfl) List.mem_cons_self (hstop _ (.inl rfl))
  · exact inv_stop hr (by rw [h]; rfl) (.inr (.inl rfl)) List.mem_cons_self (hstop _ (.inr (.inl rfl)))
  · exact inv_stop hr (by rw [h]; rfl) (.inr (.inr rfl)) List.mem_cons_self (hstop _ (.inr (.inr rfl)))
  · exact inv_wait hr (by rw [h]; exact List.cons_ne_nil _ _) BleOp.noConfusion hl
  · exact inv_wait hr (by rw [h]; exact List.cons_ne_nil _ _) BleOp.noConfusion hl
  · exact inv_wait hr (by rw [h]; exact List.cons_ne_nil _ _) BleOp.noConfusion hl
  · exact hwait (.inl h)
  · exact hwait (.inr (.inl h))
  · exact hwait (.inr (.inr h))
  · exact inv_idle hr h hl

/-! ## Requests -/

theorem Firm.append {q : List Fn} {f : Fn} (h : Firm (q ++ [f])) : Firm q := fun g hg => h g (List.mem_append_left _ hg)

theorem not_firm {q : List Fn} {f : Fn} (h : scanOf f ≠ none ∨ f = .stopAll) : ¬ Firm (q ++ [f]) := by
  intro hf
  have := hf f List.mem_concat_self
  rcases h with h | h
  · exact h this.1
  · exact this.2 h

/-- A longer queue keeps what is in progress. -/
theorem Leads.post {op : BleOp} {s : Sys} (h : Leads op s) (f : Fn) : Leads op (s.post f) := by
  cases op with
  | startAdv | startScan | startConnect | stopAdv | stopScan | stopConnect => exact h
  | idle =>
    cases hst : s.state with
    | startingAdv =>
      simp only [Leads, InProgress, Sys.post, hst] at h ⊢
      exact h.imp_left (List.mem_append_left _)
    | idle | advertising | stoppingAdv | scanning | startingScan | stoppingScan | connecting | startingConnect
    | stoppingConnect => simp_all only [Leads, InProgress, Sys.post]

/-- A request is queued. -/
theorem Inv.post {s : Sys} (hi : Inv s) {f : Fn} (hf : isAnswer f = false) (hs : scanOf f = none) : Inv (s.post f) := by
  refine { expects := ?_, last := ?_, fits := hi.fits, leads := fun h => (hi.leads h.append).post f }
  · simpa [Sys.post, List.filter_append, hf] using hi.expects
  · simpa [Sys.post, LastScan, List.filterMap_append, hs] using hi.last

theorem appBleStopActivities_inv {s : Sys} (hi : Inv s) : Inv (appBleStopActivities s) := by
  unfold appBleStopActivities
  split
  · exact hi
  · exact hi.post rfl rfl

theorem startScan_inv {s : Sys} (hi : Inv s) (p : ScanParam) : Inv ({ s with scanParam := p }.post (.startScan p)) := by
  refine { expects := ?_, last := ?_, fits := hi.fits, leads := fun h => ?_ }
  · simpa [Sys.post, List.filter_append, isAnswer] using hi.expects
  · simp [Sys.post, LastScan, List.filterMap_append, scanOf]
  · exact absurd h (not_firm (.inl (Option.some_ne_none p)))

theorem startConnect_inv {s : Sys} (hi : Inv s) (a : Addr) : Inv ({ s with bleAddrToConnect := a }.post (.startConnect a)) := by
  have ha : Inv { s with bleAddrToConnect := a } := by
    refine { hi with leads := fun h => ?_ }
    have := hi.leads h
    cases hop : s.op <;> simp_all only [Leads, InProgress]
  exact ha.post rfl rfl

/-! ## Answers -/

/-- What is queued for the answer to a command. -/
def outcome (ok : Bool) : Cmd → Fn
  | .startAdv => if ok then .switchActivities else .advFailed
  | .startScan => if ok then .switchActivities else .scanFailed
  | .startConnect => if ok then .switchActivities else .connectFailed
  | _ => .switchActivities

theorem outcome_mem {st : BleState} {c : Cmd} (ok : Bool) (h : c ∈ st.commands) : outcome ok c ∈ st.outcomes := by
  cases st <;> simp only [BleState.commands, List.mem_cons, List.not_mem_nil, or_false] at h
  case startingAdv => rcases h with rfl | rfl <;> cases ok <;> simp [outcome, BleState.outcomes]
  all_goals subst h; cases ok <;> simp [outcome, BleState.outcomes]

theorem outcome_isAnswer (ok : Bool) (c : Cmd) : isAnswer (outcome ok c) = true ∧ scanOf (outcome ok c) = none := by
  cases c <;> cases ok <;> exact ⟨rfl, rfl⟩

/-- The advertising parameters are cleared by a failed start and by a stop only. -/
theorem answered_eq (ok : Bool) (c : Cmd) (s : Sys) : ∃ adv, answered ok c s = { s with advInfo := adv }.post (outcome ok c) ∧
    (adv = s.advInfo ∨ outcome ok c = .advFailed ∨ c = .stopAdv) := by
  cases c with
  | stopAdv => exact ⟨_, rfl, .inr (.inr rfl)⟩
  | startAdv =>
    cases ok with
    | true => exact ⟨_, rfl, .inl rfl⟩
    | false => exact ⟨_, rfl, .inr (.inl rfl)⟩
  | updateAdv | startScan | startConnect | stopScan | stopConnect => cases ok <;> exact ⟨_, rfl, .inl rfl⟩

theorem answered_inv {s : Sys} (hi : Inv s) (ok : Bool) {c : Cmd} {cs : List Cmd} (hu : s.unanswered = c :: cs) :
    Inv (answered ok c { s with unanswered := cs }) := by
  obtain ⟨adv, heq, hadv⟩ := answered_eq ok c { s with unanswered := cs }
  obtain ⟨hf, hscan⟩ := outcome_isAnswer ok c
  obtain ⟨hc, rfl, hq⟩ := (hu ▸ hi.expects).answered
  rw [heq]
  refine { expects := ?_, last := ?_, fits := hi.fits, leads := fun h => ?_ }
  · simp only [Sys.post, List.filter_append, hq, List.filter_cons, hf, if_true, List.filter_nil, List.nil_append]
    exact .answer (outcome_mem ok hc)
  · simpa [Sys.post, LastScan, List.filterMap_append, hscan] using hi.last
  · have hl := hi.leads h.append
    by_cases hop : s.op = .idle
    · simp only [Leads, InProgress, Sys.post, hop] at hl ⊢
      cases hst : s.state with
      | startingAdv =>
        simp only [hst] at hl ⊢
        rcases hadv with rfl | hadv | rfl
        · exact hl.imp_left (List.mem_append_left _)
        · exact .inl (hadv ▸ List.mem_concat_self)
        · simp [hst, BleState.commands] at hc
      | advertising => simp [hst, BleState.commands] at hc
      | idle | stoppingAdv | scanning | startingScan | stoppingScan | connecting | startingConnect
      | stoppingConnect => simp_all only
    · exact hl.congr hop rfl rfl rfl

/-! ## Functions of the Bluetooth thread -/

theorem LastScan.tail {f : Fn} {fs : List Fn} {p : ScanParam} (h : LastScan (f :: fs) p) : LastScan fs p := by
  intro q hq
  apply h
  rw [List.filterMap_cons]
  split
  · exact hq
  · rename_i r _
    rw [List.getLast?_cons, Option.mem_def.1 hq]
    rfl

theorem Firm.cons {f : Fn} {fs : List Fn} (h : Firm fs) (hs : scanOf f = none) (hf : f ≠ .stopAll) : Firm (f :: fs) :=
  List.forall_mem_cons.2 ⟨⟨hs, hf⟩, h⟩

/-- A request is taken from the queue. -/
theorem Inv.take {s : Sys} {f : Fn} {fs : List Fn} (hi : Inv s) (hq : s.queue = f :: fs) (hf : isAnswer f = false) :
    Ready { s with queue := fs } := by
  refine { expects := ?_, last := (hq ▸ hi.last).tail, idle_op := hi.ready.idle_op }
  simpa [hq, hf] using hi.expects

/-- A request is accepted. -/
theorem Ready.ask {s : Sys} (hr : Ready s) (a : Activity) : Ready (s.ask a) := ⟨hr.expects, hr.last, hr.idle_op⟩

/-- New advertising parameters do not matter while no operation is pending. -/
theorem Inv.setParam {s : Sys} (hi : Inv s) (hop : s.op = .idle) (p : AdvParam) : Inv { s with advParam := p } := by
  refine { hi with leads := fun h => ?_ }
  have hl := hi.leads h
  simpa only [Leads, InProgress, hop] using hl

/-- With an operation pending they are followed by a stop. -/
theorem setParam_stop_inv {s : Sys} (hi : Inv s) (p : AdvParam) : Inv (appBleStopActivities { s with advParam := p }) := by
  unfold appBleStopActivities
  split
  · rename_i h
    exact hi.setParam (hi.ready.idle_op h) p
  · refine { expects := ?_, last := ?_, fits := hi.fits, leads := fun h => absurd h (not_firm (.inr rfl)) }
    · simpa [Sys.post, List.filter_append, isAnswer] using hi.expects
    · simpa [Sys.post, LastScan, List.filterMap_append, scanOf] using hi.last

theorem appBleStartAdv_inv {s : Sys} (hi : Inv s) (env : Answers) : Inv (appBleStartAdv env s) := by
  unfold appBleStartAdv
  split
  · rename_i h
    rw [bleAdvIsAllowed, h]
    exact appBleStopActivities_inv hi
  dsimp only
  split
  · exact setParam_stop_inv hi env.param
  split
  · rename_i h
    exact hi.setParam (by simpa only [Fits, h.1] using hi.fits) env.param
  · have hr : Ready ({ s with advParam := env.param }.ask (.adv env.param)) := ⟨hi.expects, hi.last, hi.ready.idle_op⟩
    unfold bleAdvRefreshing
    split
    · rename_i h
      have he := hr.expects
      rw [h.1] at he
      refine { expects := he.hand rfl ?_, last := hr.last, fits := fun _ => rfl, leads := fun _ => ?_ }
      · exact List.mem_cons_of_mem _ List.mem_cons_self
      · simp only [Sys.hand, h.2.1]
        exact .inr rfl
    · exact bleStartAdv_inv hr (fun _ => rfl)

/-- The queue loses its head: only a failure makes a difference. -/
theorem Leads.take {op : BleOp} {s : Sys} {f : Fn} {fs : List Fn} (h : Leads op s) (hq : s.queue = f :: fs)
    (hf : f ≠ .advFailed) : Leads op { s with queue := fs } := by
  cases op with
  | startAdv | startScan | startConnect | stopAdv | stopScan | stopConnect => exact h
  | idle =>
    simp only [Leads, InProgress] at h ⊢
    cases hst : s.state with
    | startingAdv =>
      simp only [hst, hq, List.mem_cons, hf.symm, false_or] at h
      exact h
    | idle | advertising | stoppingAdv | scanning | startingScan | stoppingScan | connecting | startingConnect
    | stoppingConnect => simp_all only

theorem LastScan.head {p q : ScanParam} {fs : List Fn} (h : LastScan (.startScan p :: fs) q) (hf : Firm fs) : p = q := by
  apply h
  have : fs.filterMap scanOf = [] := List.filterMap_eq_nil_iff.2 fun f hm => (hf f hm).1
  simp [scanOf, this]

theorem runRequest_inv {s : Sys} {f : Fn} {fs : List Fn} (hi : Inv s) (hq : s.queue = f :: fs) (hf : isAnswer f = false)
    (env : Answers) : Inv (runFn env f { s with queue := fs }) := by
  have hr := hi.take hq hf
  cases f with
  | startAdv =>
    refine appBleStartAdv_inv { expects := hr.expects, last := hr.last, fits := hi.fits, leads := fun h => ?_ } env
    exact (hi.leads (hq ▸ h.cons rfl Fn.noConfusion)).take hq Fn.noConfusion
  | startScan p =>
    refine bleStartScan_inv (hr.ask (.scan p)) (fun h => ?_)
    exact congrArg _ ((hq ▸ hi.last).head h)
  | startConnect a =>
    refine bleStartConnect_inv (hr.ask (.connect a)) (fun h => ?_)
    simpa only [Fits, show s.state = .connecting from h] using hi.fits
  | stopAll => exact bleStopAllActivities_inv (hr.ask .idle) (fun _ => rfl)
  | switchActivities | advFailed | scanFailed | connectFailed => cases hf

/-- The only answer is taken from the queue. -/
theorem Inv.takeAnswer {s : Sys} {f : Fn} {fs : List Fn} (hi : Inv s) (hq : s.queue = f :: fs) (hf : isAnswer f = true) :
    f ∈ s.state.outcomes ∧ s.unanswered = [] ∧ fs.filter isAnswer = [] := by
  have he := hi.expects
  rw [hq, List.filter_cons_of_pos hf] at he
  exact he.handled

/-- A failure is answered to the start that failed. -/
theorem Inv.failed_state {s : Sys} {f : Fn} {fs : List Fn} (hi : Inv s) (hq : s.queue = f :: fs) :
    (f = .advFailed → s.state = .startingAdv) ∧ (f = .scanFailed → s.state = .startingScan) ∧
      (f = .connectFailed → s.state = .startingConnect) := by
  refine ⟨?_, ?_, ?_⟩ <;> rintro rfl
  all_goals
    obtain ⟨h, -, -⟩ := hi.takeAnswer hq rfl
    cases hs : s.state <;> simp [hs, BleState.outcomes] at h ⊢

/-- A failure that is handled with no operation pending: nothing is wanted. -/
theorem failedCb_inv {s : Sys} {f : Fn} {fs : List Fn} {known : List BleState} (hi : Inv s) (hq : s.queue = f :: fs)
    (hf : isAnswer f = true) (hop : s.op = .idle) (hst : s.state = .startingAdv ∨ s.state = .startingScan)
    (hk : s.state ∈ known) : Inv (failedCb known { s with queue := fs }) := by
  obtain ⟨-, hun, hno⟩ := hi.takeAnswer hq hf
  have hsup : s.superseded = false := by
    have hfit := hi.fits
    rcases hst with h | h <;> simp only [Fits, h] at hfit <;> exact hfit hop
  have heq : failedCb known { s with queue := fs } = { s with queue := fs, wanted := .idle, state := .idle } := by
    simp [failedCb, Sys.fail, hsup, hk]
  rw [heq]
  apply inv_idle _ rfl (fun _ => rfl)
  refine { expects := ?_, last := (hq ▸ hi.last).tail, idle_op := fun _ => hop }
  simpa only [hun, hno] using .rest rfl

theorem bleSwitchActivities_inv {s : Sys} {fs : List Fn} (hi : Inv s) (hq : s.queue = .switchActivities :: fs)
    (hc : s.state = .startingConnect → s.op ≠ .startConnect) (allowed : Bool) :
    Inv (bleSwitchActivities allowed { s with queue := fs }) := by
  obtain ⟨hst, hun, hno⟩ := hi.takeAnswer hq rfl
  have hr : Ready { s with queue := fs, state := switched s.state, op := .idle } := by
    refine { expects := ?_, last := (hq ▸ hi.last).tail, idle_op := fun _ => rfl }
    simp only [hun, hno]
    apply Expects.rest
    cases s.state <;> rfl
  have hl (h : Firm fs) : Leads s.op s := hi.leads (hq ▸ h.cons rfl Fn.noConfusion)
  unfold bleSwitchActivities bleExecutePendingOp
  dsimp only
  split <;> rename_i hop <;> rw [hop] at hl
  · exact bleStartAdv_inv hr hl
  · exact bleStartScan_inv hr hl
  · refine bleStartConnect_inv hr (fun h => ?_)
    cases hs : s.state <;> simp_all [switched, BleState.outcomes]
  · exact bleStopAllActivities_inv hr hl
  · exact bleStopAllActivities_inv hr hl
  · exact bleStopAllActivities_inv hr hl
  · -- nothing is pending: the command under way was for the latest request
    have hadv : .advFailed ∉ s.queue := by
      rw [hq]
      intro h
      have h : .advFailed ∈ fs.filter isAnswer := List.mem_filter.2 ⟨(List.mem_cons.1 h).resolve_left Fn.noConfusion, rfl⟩
      rw [hno] at h
      cases h
    refine { expects := hr.expects, last := hr.last, fits := ?_, leads := fun h => ?_ }
    · have hfit := hi.fits
      cases hs : s.state <;> simp_all [Fits, switched, BleState.outcomes]
    · have h := hl h
      cases hs : s.state <;> simp_all [Leads, InProgress, switched, BleState.outcomes]

theorem step_inv {s s' : Sys} {e : Event} (hi : Inv s) (hc : Carried e s) (hs : step e s = some s') : Inv s' := by
  cases e with
  | startAdv =>
    cases hs
    exact hi.post rfl rfl
  | startScan p =>
    cases hs
    exact startScan_inv hi p
  | startConnect a =>
    cases hs
    exact startConnect_inv hi a
  | stop =>
    cases hs
    exact appBleStopActivities_inv hi
  | answer ok =>
    simp only [step] at hs
    split at hs
    · cases hs
    · rename_i hu
      cases hs
      exact answered_inv hi ok hu
  | run env =>
    simp only [step] at hs
    split at hs
    · cases hs
    rename_i f fs hq
    cases hs
    simp only [Carried, hq] at hc
    cases f with
    | startAdv | startScan p | startConnect a | stopAll => exact runRequest_inv hi hq rfl env
    | switchActivities => exact bleSwitchActivities_inv hi hq hc env.allowedAtStart
    | advFailed =>
      have hst := (hi.failed_state hq).1 rfl
      exact failedCb_inv hi hq rfl hc (.inl hst) (by simp [hst])
    | scanFailed =>
      have hst := (hi.failed_state hq).2.1 rfl
      exact failedCb_inv hi hq rfl hc (.inr hst) (by simp [hst])
    | connectFailed =>
      -- a connection is under way only with an operation pending
      have hst := (hi.failed_state hq).2.2 rfl
      have hfit := hi.fits
      simp only [Fits, hst] at hfit
      exact absurd hc hfit

/-- As long as no start fails with an operation pending and no connection is
started with its request pending, the activity at rest is the one asked for last. -/
theorem latest_request_wins {s : Sys} {evs : List Event} (hrun : Run step Carried Init s evs) : Settled s := by
  have hi : Inv s := hrun.inv Inv (fun _ => Inv.init) fun _ _ _ hi hc hs => step_inv hi hc hs
  exact hi.settled

instance (e : Event) (s : Sys) : Decidable (Carried e s) := by
  unfold Carried
  split <;> infer_instance

def fresh : Sys :=
  { state := .idle, op := .idle, advInfo := .zero, scanInfo := ⟨0, 0, 0⟩, bleAddrToConnect := [], advParam := .zero
    scanParam := ⟨0, 0, 0⟩, connectTo := [], unanswered := [], queue := [], wanted := .idle, superseded := false }

/-- The advertising is allowed, with one byte of data. -/
def oneByte : Answers :=
  { allowed := true, param := { AdvParam.zero with advInterval := 32, advData := [7] }, adv_user_enable := true, allowedAtStart := true }

/-- A scan is requested while the advertising starts: it is carried out, with its
parameters. -/
theorem latest_request_wins_scan : ∃ s evs, Run step Carried Init s evs ∧ s.state = .scanning ∧ s.scanInfo = ⟨1, 2, 3⟩ ∧
    Settled s := by
  obtain ⟨s, hrun, hgood⟩ := exists_run_of_check step Carried Init (some fresh)
    [.startAdv, .run oneByte, .startScan ⟨1, 2, 3⟩, .run oneByte, .answer true, .run oneByte, .answer true, .run oneByte,
      .answer true, .run oneByte]
    (fun s => decide (s.state = .scanning ∧ s.scanInfo = ⟨1, 2, 3⟩))
    (by rintro _ ⟨⟩; exact ⟨rfl, rfl, rfl, rfl, rfl, rfl⟩) (by decide)
  obtain ⟨hst, hscan⟩ := of_decide_eq_true hgood
  exact ⟨s, _, hrun, hst, hscan, latest_request_wins hrun⟩

/-- The advertising fails with the request to scan pending. The next request to
advertise is carried out, and then the scan, for which it is stopped. -/
theorem failed_start_undoes : ∃ s evs, Run step (fun _ _ => True) Init s evs ∧
    s.wanted = .adv oneByte.param ∧ s.state = .scanning ∧ ¬ Settled s := by
  obtain ⟨s, hrun, hgood⟩ := exists_run_of_check step (fun _ _ => True) Init (some fresh)
    [.startAdv, .run oneByte, .startScan ⟨1, 2, 3⟩, .run oneByte, .answer false, .run oneByte,
      .startAdv, .run oneByte, .answer true, .run oneByte, .answer true, .run oneByte, .answer true, .run oneByte]
    (fun s => decide (s.wanted = .adv oneByte.param ∧ s.state = .scanning ∧ s.unanswered = [] ∧ s.queue.isEmpty))
    (by rintro _ ⟨⟩; exact ⟨rfl, rfl, rfl, rfl, rfl, rfl⟩) (by decide)
  obtain ⟨hw, hst, hun, hq⟩ := of_decide_eq_true hgood
  refine ⟨s, _, hrun, hw, hst, fun h => ?_⟩
  have hact := (h hun (List.isEmpty_iff.1 hq)).2
  simp [activity, hst, hw] at hact

/-! ## Where the condition fails -/

theorem failedCb_op (known : List BleState) (s : Sys) : (failedCb known s).op = s.op := by
  unfold failedCb Sys.fail
  dsimp only
  split <;> split <;> rfl

theorem failedCb_rest (known : List BleState) (s : Sys) :
    (failedCb known s).unanswered = s.unanswered ∧ (failedCb known s).queue = s.queue := by
  unfold failedCb Sys.fail
  dsimp only
  split <;> split <;> exact ⟨rfl, rfl⟩

/-- A connection that starts with its own request pending leaves it pending. -/
theorem bleSwitchActivities_connect {s : Sys} (hst : s.state = .startingConnect) (hop : s.op = .startConnect) (allowed : Bool) :
    bleSwitchActivities allowed s = { s with state := .connecting } := by
  simp [bleSwitchActivities, switched, bleExecutePendingOp, bleStartConnect, hst, hop]

/-- The condition leaves out only functions that keep an operation pending: the
last of the queue leaves it so at rest. -/
theorem not_carried {s s' : Sys} {env : Answers} {f : Fn} (hc : ¬ Carried (.run env) s) (hs : step (.run env) s = some s')
    (hq : s.queue = [f]) (hun : s.unanswered = []) : ¬ Settled s' := by
  suffices h : s'.op ≠ .idle ∧ s'.unanswered = [] ∧ s'.queue = [] by
    intro hset
    exact h.1 (hset h.2.1 h.2.2).1
  simp only [step, hq, Option.some.injEq] at hs
  subst hs
  simp only [Carried, hq] at hc
  cases f with
  | startAdv | startScan | startConnect | stopAll => exact absurd trivial hc
  | switchActivities =>
    obtain ⟨hst, hop⟩ := Classical.not_imp.1 hc
    rw [not_not] at hop
    have heq : bleSwitchActivities env.allowedAtStart { s with queue := [] } = { s with queue := [], state := .connecting } := by
      apply bleSwitchActivities_connect
      · exact hst
      · exact hop
    rw [runFn, heq]
    exact ⟨by simp [hop], hun, rfl⟩
  | advFailed | scanFailed | connectFailed =>
    exact ⟨(failedCb_op _ _).trans_ne hc, (failedCb_rest _ _).1.trans hun, (failedCb_rest _ _).2⟩

end BleApp.ModeSwitch
