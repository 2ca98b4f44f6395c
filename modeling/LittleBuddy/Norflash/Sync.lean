import LittleBuddy.Norflash.Ranges
/-!
# Synchronous calls

A synchronous erase or write first finishes the operation that another module
has suspended, then drains its own module's queue, and then hands its own
operation to the HAL. The drain is a `do`/`while` loop whose `continue` jumps to
the loop's condition, so the answer of the flush callback can end it early.
-/
open NorMem LinkedPool Runs

namespace Norflash

variable {W : Nat}

/-! ## The loops -/

/-- The flash after the operations of a queue, the oldest first. -/
def runQueue (q : List QNode) (flash : Mem) : Mem := q.foldr QNode.run flash

theorem runQueue_concat (q : List QNode) (n : QNode) (flash : Mem) : runQueue (q ++ [n]) flash = runQueue q (n.run flash) := by
  simp [runQueue]

/-- Every operation of the module's queue has been executed. -/
structure Drained (s : ApiInfo W) (L : ModId → List (Slot W)) (m : ModId) (s' : ApiInfo W) : Prop where
  inv : SysInv s' (Function.update L m [])
  queue : queues s'.pool (Function.update L m []) = Function.update (queues s.pool L) m []
  flash : s'.hal.flash = runQueue (queues s.pool L m) s.hal.flash
  rest : ∀ m', AtRest s' (Function.update L m []) m'
  reg : ∀ m', (s'.mod_info m').reg = (s.mod_info m').reg

section Loops
variable {s : ApiInfo W} {L : ModId → List (Slot W)} {m : ModId}

theorem SysInv.atRest_of_nil (h : SysInv s L) (hnil : L m = []) : AtRest s L m := by
  rcases h.started m with hr | ⟨-, c, hs⟩
  · exact hr
  · have := hs.last
    rw [hnil] at this
    cases this

/-- Nothing was pending. -/
theorem Drained.of_nil (h : SysInv s L) (hnil : L m = []) (hrest : ∀ m', m' ≠ m → AtRest s L m') (a : Bool) :
    Drained s L m (s.setCur s.cur_mod_id s.cur_mod a) := by
  have hL : Function.update L m [] = L := by rw [← hnil, Function.update_eq_self]
  have hq : queues s.pool L m = [] := by rw [queues, hnil, List.map_nil]
  refine ⟨?_, ?_, ?_, fun m' => ?_, fun m' => rfl⟩
  · rw [hL]
    exact h.setCur h.cur_inited (.inr rfl) s.cur_mod_id a
  · rw [hL, ← hq, Function.update_eq_self]
    rfl
  · rw [hq]
    rfl
  · rw [hL]
    by_cases hm : m' = m
    · exact hm ▸ (h.atRest_of_nil hnil).setCur
    · exact (hrest m' hm).setCur

/-- The oldest operation, then the others. -/
theorem FlushDone.drained {l : List (Slot W)} {c : Slot W} {a : Bool} {s₁ s' : ApiInfo W}
    (hd : FlushDone (s.setCur s.cur_mod_id s.cur_mod a) L m l c s₁) (h : Drained s₁ (Function.update L m l) m s') :
    Drained s L m s' := by
  have hq₁ : queues s₁.pool (Function.update L m l) m = l.map s.pool.view := by
    rw [hd.queue, Function.update_self]
    rfl
  have hq : queues s.pool L m = l.map s.pool.view ++ [s.pool.view c] := by
    rw [queues, hd.list, List.map_append, List.map_singleton]
  refine ⟨?_, ?_, ?_, ?_, fun m' => (h.reg m').trans (hd.frame.reg m')⟩
  · have := h.inv
    rwa [Function.update_idem] at this
  · have := h.queue
    rw [Function.update_idem, hd.queue, Function.update_idem] at this
    exact this
  · rw [h.flash, hq₁, hq, runQueue_concat, hd.flash]
    rfl
  · have := h.rest
    rwa [Function.update_idem] at this

/-- The loop over the module's own queue drains it, or is left at once: by an
answer that does not allow it, before anything was flushed. -/
theorem drainMod_spec (h : SysInv s L) (hin : (s.mod_info m).is_inited = true) (hrest : ∀ m', m' ≠ m → AtRest s L m')
    {b : Bool} {script script' : List FlushEnv} {s' : ApiInfo W} (hrun : drainMod m b script s = some (script', s')) :
    Drained s L m s' ∨
      (b = false ∧ s.allowed_cb = true ∧ s' = s ∧ ∃ env, script = env :: script' ∧ env.allowed = false) := by
  induction script generalizing b s L with
  | nil => cases hrun
  | cons env script ih =>
    rw [drainMod] at hrun
    obtain ⟨allowed, hallow, hcb⟩ := flushIsAllowed_spec env.allowed s
    rw [hallow] at hrun
    cases allowed with
    | false =>
      obtain ⟨hcb, hno⟩ := hcb rfl
      have hs : s.setCur s.cur_mod_id s.cur_mod true = s := by rw [ApiInfo.setCur, ← hcb]
      simp only [Bool.not_false, if_true, hs] at hrun
      cases b with
      | true =>
        -- the loop's condition still holds: the callback is asked again
        rcases ih h hin hrest hrun with hd | ⟨hb, -⟩
        · exact .inl hd
        · cases hb
      | false =>
        simp only [Bool.false_eq_true, if_false, Option.some.injEq, Prod.mk.injEq] at hrun
        obtain ⟨rfl, rfl⟩ := hrun
        exact .inr ⟨rfl, hcb, rfl, env, rfl, hno⟩
    | true =>
      have h₀ := h.setCur h.cur_inited (.inr rfl) s.cur_mod_id false
      obtain ⟨b₁, rep, s₁, hop, hcase⟩ := operaFlush_spec h₀ hin (fun m' hm => (hrest m' hm).setCur) true (by simp) env.hal
      simp only [Bool.not_true, Bool.false_eq_true, if_false, hop, Option.bind_eq_bind, Option.bind_some] at hrun
      rcases hcase with ⟨hnil, rfl, -, rfl⟩ | ⟨l, c, rfl, -, hd⟩ | ⟨l, c, mid, hns, -⟩
      · simp only [Bool.false_eq_true, if_false, Option.some.injEq, Prod.mk.injEq] at hrun
        obtain ⟨-, rfl⟩ := hrun
        exact .inl (.of_nil h hnil hrest false)
      · simp only [if_true] at hrun
        have hin₁ : (s₁.mod_info m).is_inited = true := by
          have := congrArg ModuleInfo.is_inited (hd.frame.reg m)
          exact this.trans hin
        rcases ih hd.inv hin₁ (fun m' _ => hd.rest m') hrun with hd' | ⟨hb, -⟩
        · exact .inl (hd.drained hd')
        · cases hb
      · cases hns

theorem drainCurMod_idle {cur : ModId} (h : (s.mod_info cur).state = .idle) (b : Bool) (script : List FlushEnv) :
    drainCurMod cur b script s = some (b, script, s) := by
  rw [drainCurMod.eq_def]
  exact if_pos h

/-- The loop over another module finishes the operation it has suspended, if there is one. -/
theorem drainCurMod_spec (h : SysInv s L) {cur : ModId} (hcur : s.cur_mod = some cur) {b b' : Bool}
    {script script' : List FlushEnv} {s' : ApiInfo W} (hrun : drainCurMod cur b script s = some (b', script', s')) :
    (AtRest s L cur ∧ b' = b ∧ script' = script ∧ s' = s) ∨
      ∃ l c, Suspended s L cur c ∧ b' = true ∧ FlushDone (s.setCur s.cur_mod_id s.cur_mod false) L cur l c s' := by
  have hin := h.cur_inited cur hcur
  rcases h.started cur with hr | ⟨-, c, hs⟩
  · rw [drainCurMod_idle (hr.state hin)] at hrun
    cases hrun
    exact .inl ⟨hr, rfl, rfl, rfl⟩
  · refine .inr ?_
    have hbusy : (s.mod_info cur).state ≠ .idle := by
      rw [hs.state]
      cases (s.pool.node c).type <;> simp [suspendState]
    induction script generalizing b with
    | nil =>
      rw [drainCurMod, if_neg hbusy] at hrun
      cases hrun
    | cons env script ih =>
      rw [drainCurMod, if_neg hbusy] at hrun
      obtain ⟨allowed, hallow, hcb⟩ := flushIsAllowed_spec env.allowed s
      simp only [hallow] at hrun
      cases allowed with
      | false =>
        obtain ⟨hcb, -⟩ := hcb rfl
        have hs : s.setCur s.cur_mod_id s.cur_mod true = s := by rw [ApiInfo.setCur, ← hcb]
        simp only [Bool.not_false, if_true, hs] at hrun
        exact ih hrun
      | true =>
        have h₀ := h.setCur h.cur_inited (.inr rfl) s.cur_mod_id false
        have hrest : ∀ m', m' ≠ cur → AtRest s L m' := fun m' hm =>
          h.rest fun hc => hm (Option.some.inj (hc.symm.trans hcur))
        obtain ⟨b₁, rep, s₁, hop, hcase⟩ := operaFlush_spec h₀ hin (fun m' hm => (hrest m' hm).setCur) true (by simp)
          env.hal
        simp only [Bool.not_true, Bool.false_eq_true, if_false, hop, Option.bind_eq_bind, Option.bind_some] at hrun
        rcases hcase with ⟨hnil, -⟩ | ⟨l, c₁, rfl, -, hd⟩ | ⟨l, c₁, mid, hns, -⟩
        · have := hs.last
          rw [hnil] at this
          cases this
        · have hcc : c₁ = c := by
            have := hs.last
            rw [hd.list, List.getLast?_concat] at this
            exact Option.some.inj this
          have hin₁ : (s₁.mod_info cur).is_inited = true := by
            have := congrArg ModuleInfo.is_inited (hd.frame.reg cur)
            exact this.trans hin
          simp only [if_true] at hrun
          rw [drainCurMod_idle ((hd.rest cur).state hin₁)] at hrun
          cases hrun
          exact ⟨l, c₁, hcc ▸ hs, rfl, hd⟩
        · cases hns

end Loops

/-! ## Before the call's own operation -/

/-- The pending operations of a module, newest first. -/
def pendingOps (s : ApiInfo W) (m : ModId) : Option (List QNode) := (pendingSlots s m).map (·.map s.pool.view)

/-- The flash when the operation that another module has suspended is finished. -/
def otherFinished (s : ApiInfo W) (m : ModId) : Mem :=
  match s.cur_mod with
  | none => s.hal.flash
  | some cur =>
    if cur = m then s.hal.flash
    else match (s.mod_info cur).cur_opera_info with
      | some c => (s.pool.view c).run s.hal.flash
      | none => s.hal.flash

section Drain
variable {s s' : ApiInfo W} {L : ModId → List (Slot W)} {m : ModId} {script script' : List FlushEnv}

theorem pendingOps_of (h : SysInv s L) (m : ModId) : pendingOps s m = some (queues s.pool L m) := by
  rw [pendingOps, pendingSlots_of h m]
  rfl

theorem otherFinished_rest (hrest : ∀ m', m' ≠ m → AtRest s L m') : otherFinished s m = s.hal.flash := by
  unfold otherFinished
  split
  · rfl
  · rename_i cur _
    split
    · rfl
    · rename_i hne
      rw [(hrest cur hne).cur]

/-- The module is drained, and the HAL is free. -/
structure Ready (s : ApiInfo W) (m : ModId) (s' : ApiInfo W) : Prop where
  inv : ∃ L, SysInv s' L ∧ L m = []
  flash : ∃ q, pendingOps s m = some q ∧ s'.hal.flash = runQueue q (otherFinished s m)
  op : s'.hal.op = none

theorem Drained.ready (h : SysInv s L) {s₁ : ApiInfo W} {L₁ : ModId → List (Slot W)} (hd : Drained s₁ L₁ m s')
    (hq : queues s₁.pool L₁ m = queues s.pool L m) (hf : s₁.hal.flash = otherFinished s m) : Ready s m s' :=
  ⟨⟨_, hd.inv, Function.update_self ..⟩, ⟨_, pendingOps_of h m, by rw [hd.flash, hq, hf]⟩, hd.inv.hal hd.rest⟩

/-- What a synchronous call does before its own operation: it drains, or it goes
on at once, because the callback was there, no operation of another module was
suspended, and the first answer was no. -/
theorem drainAll_spec (h : SysInv s L) (hin : (s.mod_info m).is_inited = true)
    (hrun : drainAll m script s = some (script', s')) :
    Ready s m s' ∨ ((∀ m', m' ≠ m → AtRest s L m') ∧ s.allowed_cb = true ∧ s' = s ∧
      ∃ env, script = env :: script' ∧ env.allowed = false) := by
  have hdirect : (∀ m', m' ≠ m → AtRest s L m') → drainMod m false script s = some (script', s') →
      Ready s m s' ∨ ((∀ m', m' ≠ m → AtRest s L m') ∧ s.allowed_cb = true ∧ s' = s ∧
        ∃ env, script = env :: script' ∧ env.allowed = false) := by
    intro hrest hrun
    rcases drainMod_spec h hin hrest hrun with hd | ⟨-, hcb, hs, henv⟩
    · exact .inl (hd.ready h rfl (otherFinished_rest hrest).symm)
    · exact .inr ⟨hrest, hcb, hs, henv⟩
  unfold drainAll at hrun
  cases hcur : s.cur_mod with
  | none =>
    simp only [hcur, Option.bind_eq_bind, Option.bind_some] at hrun
    refine hdirect (fun m' _ => h.rest fun hc => ?_) hrun
    rw [hcur] at hc
    cases hc
  | some cur =>
    simp only [hcur] at hrun
    by_cases hm : m = cur
    · rw [if_neg (not_not.2 hm)] at hrun
      refine hdirect (fun m' hm' => h.rest fun hc => hm' ?_) hrun
      rw [hcur] at hc
      exact (Option.some.inj hc).symm.trans hm.symm
    · rw [if_pos hm] at hrun
      obtain ⟨⟨b, script₁, s₁⟩, hfirst, hmod⟩ := Option.bind_eq_some_iff.1 hrun
      rcases drainCurMod_spec h hcur hfirst with ⟨hr, rfl, rfl, rfl⟩ | ⟨l, c, hs, rfl, hd⟩
      · refine hdirect (fun m' _ => ?_) hmod
        by_cases hc : m' = cur
        · exact hc ▸ hr
        · exact h.rest fun hc' => hc (Option.some.inj (hc'.symm.trans hcur))
      · -- the other module's operation is done; from here on no callback is left
        have hin₁ : (s₁.mod_info m).is_inited = true := by
          have := congrArg ModuleInfo.is_inited (hd.frame.reg m)
          exact this.trans hin
        refine .inl ?_
        have hdr : Drained s₁ (Function.update L cur l) m s' := by
          rcases drainMod_spec hd.inv hin₁ (fun m' _ => hd.rest m') hmod with hdr | ⟨hb, -⟩
          · exact hdr
          · cases hb
        refine hdr.ready h ?_ ?_
        · rw [hd.queue, Function.update_of_ne hm]
          rfl
        · have hcc : (s.mod_info cur).cur_opera_info = some c := by
            have hl := hs.last
            rw [hd.list, List.getLast?_concat] at hl
            exact hs.cur
          rw [hd.flash, otherFinished, hcur]
          simp only [if_neg (Ne.symm hm), hcc]
          rfl

end Drain

/-! ## The calls -/

inductive SyncCall where
  | erase (start_addr len : Nat)
  | write (start_addr len : Nat) (buffer : Nat → UInt8)

namespace SyncCall

def entry (script : List FlushEnv) : SyncCall → Entry
  | .erase _ _ => .erase false script
  | .write _ _ buffer => .write buffer false script

def range : SyncCall → Nat × Nat
  | .erase start_addr len => (start_addr, len)
  | .write start_addr len _ => (start_addr, len)

def exec (c : SyncCall) (mod_id : Nat) (script : List FlushEnv) (s : ApiInfo W) :
    Option (Ret × List FlushEnv × ApiInfo W) :=
  match c with
  | .erase start_addr len => norflashApiErase mod_id start_addr len false script s
  | .write start_addr len buffer => norflashApiWrite mod_id start_addr buffer len false script s

/-- What the call puts on the flash. -/
def applyTo (c : SyncCall) (flash : Mem) : Mem :=
  match c with
  | .erase start_addr len => NorMem.erase flash start_addr len
  | .write start_addr len buffer => program flash start_addr len buffer

/-- The call's own operation. -/
def hal (c : SyncCall) (h : Hal W) : HalRet × Hal W :=
  match c with
  | .erase start_addr len => h.erase start_addr len
  | .write start_addr len buffer => h.write start_addr len buffer

theorem hal_of_free (c : SyncCall) {h : Hal W} (hop : h.op = none) : c.hal h = (.ok, ⟨c.applyTo h.flash, none⟩) := by
  cases c <;> simp [hal, Hal.erase, Hal.write, hop, applyTo]

theorem hal_of_busy (c : SyncCall) {h : Hal W} (hop : h.op ≠ none) : c.hal h = (.badOp, h) := by
  have : h.op.isSome = true := Option.isSome_iff_ne_none.2 hop
  cases c <;> simp [hal, Hal.erase, Hal.write, this]

/-- Behind the checks a call drains and executes its own operation. -/
theorem exec_eq (c : SyncCall) {m : ModId} {s : ApiInfo W} {script : List FlushEnv} (hs : s.is_inited = true)
    (hm : (s.mod_info m).is_inited = true)
    (hacc : Accepts ((c.entry script).call m.val c.range.1 c.range.2 s)) :
    c.exec m.val script s = (drainAll m script s).map fun r =>
      (syncResult (c.hal r.2.hal).1, r.1,
        { r.2 with hal := (c.hal r.2.hal).2, touched := ⟨m, c.range.1, c.range.2⟩ :: r.2.touched }) := by
  obtain ⟨hr, hok⟩ := (Entry.accepts_iff hs hm _ _ _).1 hacc
  cases c with
  | erase addr len =>
    have hr : outOfRange (s.mod_info m) addr len = false := hr
    obtain ⟨ha, hl⟩ : apiIsAlign addr (s.mod_info m).mod_sector_len = true ∧
      (len = (s.mod_info m).mod_sector_len ∨ len = (s.mod_info m).mod_block_len) := hok
    simp only [exec, norflashApiErase, hs, hm, m.isLt, Fin.eta, range, hr, ha, dif_pos, Bool.not_true, Bool.false_eq_true,
      if_false, show ¬ (len ≠ (s.mod_info m).mod_sector_len ∧ len ≠ (s.mod_info m).mod_block_len) by tauto]
    cases drainAll m script s <;> rfl
  | write addr len buffer =>
    have hr : outOfRange (s.mod_info m) addr len = false := hr
    have hl : len ≠ 0 := hok
    simp only [exec, norflashApiWrite, hs, hm, m.isLt, m.isLt.le.not_gt, Fin.eta, range, hr, dif_pos, Bool.not_true,
      Bool.false_eq_true, if_false, hl]
    cases drainAll m script s <;> rfl

/-- When the call returns OK, the module's pending operations have been applied,
the oldest first, and then its own. -/
def Ordered (c : SyncCall) (m : ModId) (script : List FlushEnv) (s : ApiInfo W) : Prop :=
  ∀ script' s', c.exec m.val script s = some (.ok, script', s') →
    ∃ q, pendingOps s m = some q ∧ pendingSlots s' m = some [] ∧
      s'.hal.flash = c.applyTo (runQueue q (otherFinished s m))

end SyncCall

/-- No callback is registered, or its first answer allows the flush, or an
operation is suspended, or nothing is pending. -/
def Drains (m : ModId) (script : List FlushEnv) (s : ApiInfo W) : Prop :=
  s.allowed_cb = false ∨ (∀ env ∈ script.head?, env.allowed = true) ∨ s.hal.op ≠ none ∨ pendingSlots s m = some []

/-- With the lists in order, an accepted call is applied behind the pending
operations exactly when `Drains` holds. -/
theorem ordered_iff_of_sysInv {s : ApiInfo W} {L : ModId → List (Slot W)} (h : SysInv s L) {m : ModId}
    (hs : s.is_inited = true) (hm : (s.mod_info m).is_inited = true) (c : SyncCall) (script : List FlushEnv)
    (hacc : Accepts ((c.entry script).call m.val c.range.1 c.range.2 s)) :
    c.Ordered m script s ↔ Drains m script s := by
  have hexec := c.exec_eq hs hm hacc
  constructor
  · intro hord
    by_contra hno
    simp only [Drains, not_or, not_not, Bool.not_eq_false] at hno
    obtain ⟨hcb, hhead, hop, hpend⟩ := hno
    obtain ⟨env, script, rfl, hno⟩ : ∃ env rest, script = env :: rest ∧ env.allowed = false := by
      cases script with
      | nil => simp at hhead
      | cons env rest => exact ⟨env, rest, rfl, by simpa using hhead⟩
    -- nothing is suspended, so both loops are left at once and the call goes to the HAL
    have hrest : ∀ m', AtRest s L m' := fun m' => by
      rcases h.started m' with hr | ⟨-, c, hs⟩
      · exact hr
      · exact absurd hop hs.op_some
    have hmod : drainMod m false (env :: script) s = some (script, s) := by
      simp [drainMod, flushIsAllowed, hcb, hno]
    have hdrain : drainAll m (env :: script) s = some (script, s) := by
      unfold drainAll
      cases hcur : s.cur_mod with
      | none => exact hmod
      | some cur =>
        have hidle := (hrest cur).state (h.cur_inited cur hcur)
        simp only [drainCurMod_idle hidle, ite_self, Option.bind_eq_bind, Option.bind_some, hmod]
    rw [hdrain, Option.map_some, c.hal_of_free hop] at hexec
    obtain ⟨q, hq, hnil, -⟩ := hord _ _ hexec
    exact hpend hnil
  · rintro hdr script' s' hrun
    rw [hexec] at hrun
    obtain ⟨⟨sc, s₁⟩, hdrain, he⟩ := Option.map_eq_some_iff.1 hrun
    simp only [Prod.mk.injEq] at he
    obtain ⟨hret, -, rfl⟩ := he
    rcases drainAll_spec h hm hdrain with hready | ⟨hrest, hcb, rfl, env, rfl, hno⟩
    · obtain ⟨L₁, h₁, hnil⟩ := hready.inv
      obtain ⟨q, hq, hf⟩ := hready.flash
      rw [c.hal_of_free hready.op]
      refine ⟨q, hq, ?_, by rw [hf]⟩
      have := pendingSlots_of h₁ m
      rw [hnil] at this
      exact this
    · -- the loop was left at once, though it should have drained
      by_cases hop : s₁.hal.op = none
      · rcases hdr with hcb' | hhead | hop' | hnil
        · rw [hcb] at hcb'
          cases hcb'
        · have := hhead env rfl
          rw [hno] at this
          cases this
        · exact absurd hop hop'
        · rw [c.hal_of_free hop, otherFinished_rest hrest]
          refine ⟨[], ?_, hnil, rfl⟩
          rw [pendingOps, hnil]
          rfl
      · -- the module's own operation is suspended, and the HAL turns the call down
        rw [c.hal_of_busy hop] at hret
        cases hret

/-! ## Runs with synchronous calls -/

/-- A call of the component, asynchronous or synchronous. -/
inductive Call where
  | deferred (e : Event)
  | sync (mod_id : Nat) (c : SyncCall) (script : List FlushEnv)

def callStep : Call → Sys W → Option (Sys W)
  | .deferred e, s => step e s
  | .sync mod_id c script, s => (c.exec mod_id script s.api).map fun r =>
    ⟨r.2.2, if r.1 = .ok then c.applyTo s.direct else s.direct⟩

/-- Every asynchronous erase meets `EraseSafe`. -/
def CallCond : Call → Sys W → Prop
  | .deferred e, s => ListCond e s
  | .sync _ _ _, _ => True

instance (k : Call) (s : Sys W) : Decidable (CallCond k s) :=
  match k with
  | .deferred e => inferInstanceAs (Decidable (ListCond e s))
  | .sync _ _ _ => inferInstanceAs (Decidable True)

/-- A synchronous call is turned down, or it drains and goes to the HAL. -/
theorem SyncCall.exec_cases {c : SyncCall} {mod_id : Nat} {script script' : List FlushEnv} {s s' : ApiInfo W} {r : Ret}
    (h : c.exec mod_id script s = some (r, script', s')) :
    s' = s ∨ ∃ m t, (s.mod_info m).is_inited = true ∧ ∃ s₁, drainAll m script s = some (script', s₁) ∧
      s' = { s₁ with hal := (c.hal s₁.hal).2, touched := t } := by
  cases c with
  | erase addr len =>
    cases norflashApiErase_outcome h with
    | refused => exact .inl rfl
    | queued _ _ hasync => cases hasync
    | drained _ _ hm _ hdrain => exact .inr ⟨_, _, hm, _, hdrain, rfl⟩
  | write addr len buffer =>
    cases norflashApiWrite_outcome h with
    | refused => exact .inl rfl
    | queued _ _ hasync => cases hasync
    | drained _ _ hm _ hdrain => exact .inr ⟨_, _, hm, _, hdrain, rfl⟩

/-- The invariant does not look at the flash. -/
theorem SysInv.setFlash {s : ApiInfo W} {L : ModId → List (Slot W)} (h : SysInv s L) {hal : Hal W}
    (hop : hal.op = s.hal.op) (t : List Touch) : SysInv { s with hal := hal, touched := t } L where
  pool := h.pool
  uninited := h.uninited
  cur_inited := h.cur_inited
  started m := by
    rcases h.started m with hr | ⟨hm, c, hs⟩
    · exact .inl ⟨hr.cur, hr.state, hr.unlocked⟩
    · exact .inr ⟨hm, c, ⟨hs.last, hs.cur, hs.lock, hs.state, hop.trans hs.op, fun hn => hs.op_some (hop.symm.trans hn)⟩⟩
  hal hall := hop.trans (h.hal fun m => ⟨(hall m).cur, (hall m).state, (hall m).unlocked⟩)

theorem SyncCall.hal_op (c : SyncCall) (h : Hal W) : (c.hal h).2.op = h.op := by
  by_cases hop : h.op = none
  · rw [c.hal_of_free hop, hop]
  · rw [c.hal_of_busy hop]

/-- Every call leaves the lists in order. -/
theorem callStep_sysInv {k : Call} {s s' : Sys W} {L : ModId → List (Slot W)} (h : SysInv s.api L) (hc : CallCond k s)
    (ht : callStep k s = some s') : ∃ L', SysInv s'.api L' := by
  cases k with
  | deferred e => exact step_sysInv h hc ht
  | sync mod_id c script =>
    obtain ⟨⟨r, script', api⟩, hexec, rfl⟩ := Option.map_eq_some_iff.1 ht
    rcases SyncCall.exec_cases hexec with rfl | ⟨m, t, hm, s₁, hdrain, rfl⟩
    · exact ⟨L, h⟩
    · rcases drainAll_spec h hm hdrain with hready | ⟨-, -, rfl, -⟩
      · obtain ⟨L₁, h₁, -⟩ := hready.inv
        exact ⟨L₁, h₁.setFlash (c.hal_op _) t⟩
      · exact ⟨L, h.setFlash (c.hal_op _) t⟩

/-- In every run that keeps the lists in order, an accepted synchronous call is
applied behind all operations its module has pending exactly when `Drains` holds. -/
theorem sync_ordered_iff {flash : Mem} {s : Sys W} {calls : List Call}
    (h : Run callStep CallCond (· = initial W flash) s calls) (m : ModId) (hs : s.api.is_inited = true)
    (hm : (s.api.mod_info m).is_inited = true) (c : SyncCall) (script : List FlushEnv)
    (hacc : Accepts ((c.entry script).call m.val c.range.1 c.range.2 s.api)) :
    c.Ordered m script s.api ↔ Drains m script s.api := by
  have hinv : ∃ L, SysInv s.api L := by
    refine h.inv (fun s => ∃ L, SysInv s.api L) ?_ fun k s s' hi hc ht => ?_
    · rintro _ rfl
      exact ⟨_, sysInv_initial flash⟩
    · obtain ⟨L, hL⟩ := hi
      exact callStep_sysInv hL hc ht
  obtain ⟨L, hL⟩ := hinv
  exact ordered_iff_of_sysInv hL hs hm c script hacc

/-- A run that is computed call by call. -/
theorem callRun_of_check (W : Nat) (flash : Mem) (calls : List Call) (good : Sys W → Bool)
    (h : (runAll callStep (fun k s => decide (CallCond k s)) calls (initial W flash)).any good = true) :
    ∃ s, Run callStep CallCond (· = initial W flash) s calls ∧ good s = true :=
  exists_run_of_check callStep CallCond _ (some (initial W flash)) calls good (fun _ hs => (Option.some.inj hs).symm) h

/-- A write of a module whose erase is pending and another module's suspended:
the answer no only makes the first loop wait. -/
theorem sync_ordered_example : ∃ s : Sys 1,
    (SyncCall.write 0 1 fun _ => 1).Ordered 0 [⟨false, .ok⟩, ⟨true, .ok⟩, ⟨true, .ok⟩, ⟨true, .ok⟩] s.api ∧
      pendingSlots s.api 0 ≠ some [] := by
  obtain ⟨s, hr, hg⟩ := callRun_of_check 1 (fun _ => 0)
    [.deferred (.register (eightSectors 0 0)), .deferred (.register (eightSectors 1 0x10000)),
      .deferred (.erase 1 0x10000 0x1000), .deferred (flushSuspended fun _ => 7), .deferred (.erase 0 0 0x1000),
      .deferred .flushDisable]
    (fun s => decide (s.api.is_inited = true ∧ (s.api.mod_info 0).is_inited = true ∧ s.api.hal.op ≠ none ∧
      pendingSlots s.api 0 ≠ some [] ∧ (Entry.write (fun _ => 1) false
        [⟨false, .ok⟩, ⟨true, .ok⟩, ⟨true, .ok⟩, ⟨true, .ok⟩]).call 0 0 1 s.api = some .ok)) (by decide +kernel)
  obtain ⟨hs, hm, hop, hpend, hok⟩ := of_decide_eq_true hg
  refine ⟨s, (sync_ordered_iff hr 0 hs hm _ _ ?_).2 (.inr (.inr (.inl hop))), hpend⟩
  intro r hr
  have hr : some Ret.ok = some r := hok.symm.trans hr
  cases hr
  rfl

/-- With a callback that says no once, the write is applied while the erase of
its sector is pending: the erase comes later and wipes it out. -/
theorem sync_not_ordered : ¬ ∀ (W : Nat) (flash : Mem) (s : Sys W) (calls : List Call),
    Run callStep CallCond (· = initial W flash) s calls → ∀ (m : ModId) (c : SyncCall) (script : List FlushEnv),
      c.Ordered m script s.api := by
  intro hclaim
  obtain ⟨s, hr, hg⟩ := callRun_of_check 1 (fun _ => 0)
    [.deferred (.register (eightSectors 0 0)), .deferred (.erase 0 0 0x1000), .deferred .flushDisable]
    (fun s => decide ((((SyncCall.write 0 1 fun _ => 1).exec 0 [⟨false, .ok⟩] s.api).map fun r =>
      (r.1, decide (pendingSlots r.2.2 0 = some []))) = some (.ok, false))) (by decide +kernel)
  obtain ⟨⟨r, script', s'⟩, hexec, he⟩ := Option.map_eq_some_iff.1 (of_decide_eq_true hg)
  simp only [Prod.mk.injEq, decide_eq_false_iff_not] at he
  obtain ⟨rfl, hpend⟩ := he
  obtain ⟨q, -, hnil, -⟩ := hclaim 1 _ s _ hr 0 _ _ _ _ hexec
  exact hpend hnil

end Norflash
