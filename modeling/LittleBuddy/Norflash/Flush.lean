import LittleBuddy.Norflash.Lists
import LittleBuddy.Norflash.Content
/-!
# Flushing

The invariant of the whole component, `SysInv`: the lists in the pools, and who
may have an operation suspended in the HAL. `operaFlush_spec` says what one
call of `_opera_flush` does, `flush_spec` what `norflash_api_flush` does.
-/
open NorMem LinkedPool

namespace Norflash

variable {W : Nat}

/-- The list heads of the modules. -/
def heads (s : ApiInfo W) : ModId → Option (Slot W) := fun m => (s.mod_info m).opera_info

/-- The operation of a node, as the HAL keeps it while it is suspended. -/
def halOp (n : OpraInfo W) : Option (HalOp W) :=
  match n.type with
  | .writting => n.buff.map fun b => .write (n.addr + n.w_offs) b n.w_offs n.w_len
  | .erasing => some (.erase n.addr n.len)

def suspendState (t : OpraType) : State :=
  match t with
  | .writting => .writtingSuspend
  | .erasing => .eraseSuspend

/-- Nothing of the module has been started. -/
structure AtRest (s : ApiInfo W) (L : ModId → List (Slot W)) (m : ModId) : Prop where
  cur : (s.mod_info m).cur_opera_info = none
  state : (s.mod_info m).is_inited = true → (s.mod_info m).state = .idle
  unlocked : ∀ i ∈ L m, (s.pool.node i).lock = false

/-- The module's oldest operation `c` is suspended in the HAL. -/
structure Suspended (s : ApiInfo W) (L : ModId → List (Slot W)) (m : ModId) (c : Slot W) : Prop where
  last : (L m).getLast? = some c
  cur : (s.mod_info m).cur_opera_info = some c
  lock : (s.pool.node c).lock = true
  state : (s.mod_info m).state = suspendState (s.pool.node c).type
  op : s.hal.op = halOp (s.pool.node c)
  op_some : s.hal.op ≠ none

/-- The invariant of the component. -/
structure SysInv (s : ApiInfo W) (L : ModId → List (Slot W)) : Prop where
  pool : PoolOk (heads s) s.pool L
  uninited : ∀ m, (s.mod_info m).is_inited = false → L m = []
  cur_inited : ∀ m, s.cur_mod = some m → (s.mod_info m).is_inited = true
  started : ∀ m, AtRest s L m ∨ s.cur_mod = some m ∧ ∃ c, Suspended s L m c
  hal : (∀ m, AtRest s L m) → s.hal.op = none

theorem AtRest.not_suspended {s : ApiInfo W} {L : ModId → List (Slot W)} {m : ModId} {c : Slot W} (h : AtRest s L m) :
    ¬ Suspended s L m c := fun hs => by
  have := h.cur.symm.trans hs.cur
  cases this

/-- All modules but the current one are at rest. -/
theorem SysInv.rest {s : ApiInfo W} {L : ModId → List (Slot W)} (h : SysInv s L) {m : ModId} (hm : s.cur_mod ≠ some m) :
    AtRest s L m :=
  (h.started m).resolve_right fun hc => hm hc.1

/-! ## The physical operation -/

/-- The HAL finishes the operation of a node, or stops half-way in it. -/
inductive HalStep (p : Pool W) (c : Slot W) (flash : Mem) (nosuspend : Bool) : HalRet → Hal W → Prop
  | done : HalStep p c flash nosuspend .ok ⟨(p.view c).run flash, none⟩
  | stopped (mid : Mem) : nosuspend = false → halOp (p.node c) ≠ none →
    HalStep p c flash nosuspend .suspended ⟨(p.view c).stop mid flash, halOp (p.node c)⟩

theorem program_zero (f : Mem) (base : Nat) (data : Nat → UInt8) : program f base 0 data = f := by
  funext a
  exact program_other fun h => by unfold InRange at h; omega

theorem operaStart_spec {p : Pool W} {c : Slot W} {h : Hal W} {st : State}
    (htyped : (p.node c).buff.isSome = true ↔ (p.node c).type = .writting)
    (hst : st = .idle ∧ h.op = none ∨ st = suspendState (p.node c).type ∧ h.op = halOp (p.node c))
    (nosuspend : Bool) (ans : HalAns) :
    ∃ r h', operaStart (p.node c) st p.data_list (!nosuspend) ans h = some (r, h') ∧
      HalStep p c h.flash nosuspend r h' := by
  unfold operaStart
  cases ht : (p.node c).type with
  | erasing =>
    have hop : halOp (p.node c) = some (.erase (p.node c).addr (p.node c).len) := by simp [halOp, ht]
    have hrun : ∀ f, (p.view c).run f = NorMem.erase f (p.node c).addr (p.node c).len := fun f => by
      simp [QNode.run, Pool.view, Pool.op, ht]
    have hstop : ∀ mid f, (p.view c).stop mid f = erasePart f (p.node c).addr (p.node c).len mid := fun mid f => by
      simp [QNode.stop, Pool.view, Pool.op, ht]
    have hgo : ∃ r h', Hal.eraseSuspend { h with op := none } (p.node c).addr (p.node c).len (!nosuspend) ans = (r, h') ∧
        HalStep p c h.flash nosuspend r h' := by
      cases hn : nosuspend with
      | true => exact ⟨_, _, rfl, by rw [← hrun]; exact .done⟩
      | false =>
        cases ans with
        | ok => exact ⟨_, _, rfl, by rw [← hrun]; exact .done⟩
        | suspended mid =>
          refine ⟨_, _, rfl, ?_⟩
          rw [← hstop, ← hop]
          exact .stopped mid rfl (by simp [hop])
    obtain ⟨r, h', hrun', hstep⟩ := hgo
    rcases hst with ⟨rfl, hnone⟩ | ⟨rfl, hsusp⟩
    · refine ⟨r, h', ?_, hstep⟩
      have : ({ h with op := none } : Hal W) = h := by cases h; simp_all
      rw [this] at hrun'
      simp only [hrun']
    · refine ⟨r, h', ?_, hstep⟩
      rw [ht, suspendState]
      simp only [Hal.eraseResume, hsusp, hop, hrun']
  | writting =>
    obtain ⟨b, hb⟩ := Option.isSome_iff_exists.1 (htyped.2 ht)
    have hop : halOp (p.node c) =
        some (.write ((p.node c).addr + (p.node c).w_offs) b (p.node c).w_offs (p.node c).w_len) := by
      simp [halOp, ht, hb]
    have hrun : ∀ f, (p.view c).run f = program f ((p.node c).addr + (p.node c).w_offs) (p.node c).w_len
        fun j => (p.data_list b).buffer ((p.node c).w_offs + j) := fun f => by
      simp [QNode.run, Pool.view, Pool.op, Pool.bytes, ht, hb]
    have hstop : ∀ mid f, (p.view c).stop mid f = programPart f ((p.node c).addr + (p.node c).w_offs) (p.node c).w_len
        (fun j => (p.data_list b).buffer ((p.node c).w_offs + j)) mid := fun mid f => by
      simp [QNode.stop, Pool.view, Pool.op, Pool.bytes, ht, hb]
    have hgo : ∃ r h', Hal.writeSuspend { h with op := none } p.data_list ((p.node c).addr + (p.node c).w_offs) b
        (p.node c).w_offs (p.node c).w_len (!nosuspend) ans = (r, h') ∧ HalStep p c h.flash nosuspend r h' := by
      cases hn : nosuspend with
      | true => exact ⟨_, _, rfl, by rw [← hrun]; exact .done⟩
      | false =>
        cases ans with
        | ok => exact ⟨_, _, rfl, by rw [← hrun]; exact .done⟩
        | suspended mid =>
          refine ⟨_, _, rfl, ?_⟩
          rw [← hstop, ← hop]
          exact .stopped mid rfl (by simp [hop])
    obtain ⟨r, h', hrun', hstep⟩ := hgo
    rcases hst with ⟨rfl, hnone⟩ | ⟨rfl, hsusp⟩
    · have hh : ({ h with op := none } : Hal W) = h := by cases h; simp_all
      rw [hh] at hrun'
      by_cases hlen : (p.node c).w_len > 0
      · exact ⟨r, h', by simp only [if_pos hlen, hb, Option.map_some, hrun'], hstep⟩
      · refine ⟨.ok, h, by simp only [if_neg hlen], ?_⟩
        have hz : (p.view c).run h.flash = h.flash := by
          rw [hrun, Nat.eq_zero_of_not_pos hlen, program_zero]
        have hd : HalStep p c h.flash nosuspend .ok ⟨(p.view c).run h.flash, none⟩ := .done
        rw [hz] at hd
        rw [← hh]
        exact hd
    · refine ⟨r, h', ?_, hstep⟩
      rw [ht, suspendState]
      simp only [Hal.writeResume, hsusp, hop, hrun']

/-! ## `_opera_flush` -/

/-- What a module was registered with. -/
def ModuleInfo.reg (mi : ModuleInfo W) : ModuleInfo W :=
  { mi with opera_info := none, cur_opera_info := none, state := .uninited }

/-- What no flush changes, and the physical operation it may have started. -/
structure FlushFrame (s s' : ApiInfo W) (m : ModId) (n : OpraInfo W) : Prop where
  is_inited : s'.is_inited = s.is_inited
  cur_mod : s'.cur_mod = s.cur_mod
  cur_mod_id : s'.cur_mod_id = s.cur_mod_id
  allowed_cb : s'.allowed_cb = s.allowed_cb
  reg : ∀ m', (s'.mod_info m').reg = (s.mod_info m').reg
  touched : s'.touched = s.touched ∨ s'.touched = ⟨m, (opraRange n).1, (opraRange n).2⟩ :: s.touched

/-- The oldest operation `c` of the module has been completed. -/
structure FlushDone (s : ApiInfo W) (L : ModId → List (Slot W)) (m : ModId) (l : List (Slot W)) (c : Slot W)
    (s' : ApiInfo W) : Prop where
  list : L m = l ++ [c]
  inv : SysInv s' (Function.update L m l)
  queue : queues s'.pool (Function.update L m l) = Function.update (queues s.pool L) m (l.map s.pool.view)
  flash : s'.hal.flash = (s.pool.view c).run s.hal.flash
  rest : ∀ m', AtRest s' (Function.update L m l) m'
  frame : FlushFrame s s' m (s.pool.node c)

/-- The oldest operation `c` of the module has been suspended, with `mid` left behind. -/
structure FlushStopped (s : ApiInfo W) (L : ModId → List (Slot W)) (m : ModId) (l : List (Slot W)) (c : Slot W)
    (mid : Mem) (s' : ApiInfo W) : Prop where
  list : L m = l ++ [c]
  inv : SysInv s' L
  queue : queues s'.pool L =
    Function.update (queues s.pool L) m (l.map s.pool.view ++ [{ s.pool.view c with lock := true }])
  flash : s'.hal.flash = (s.pool.view c).stop mid s.hal.flash
  frame : FlushFrame s s' m (s.pool.node c)

/-- What the callback is told about a completed operation. -/
def doneReport (mi : ModuleInfo W) (nosuspend : Bool) (n : OpraInfo W) (remain : Nat) : Option OperaResult :=
  if !nosuspend && mi.cb_func && decide ((opraRange n).2 > 0) then
    some ⟨n.type, (opraRange n).1, (opraRange n).2, remain, .ok⟩
  else none

/-- The pool with the node `c` locked. -/
structure Locked (p p₁ : Pool W) (c : Slot W) : Prop where
  node : p₁.node c = { p.node c with lock := true }
  other : ∀ j, j ≠ c → p₁.node j = p.node j
  data : p₁.data_list = p.data_list

theorem Locked.view_other {p p₁ : Pool W} {c j : Slot W} (h : Locked p p₁ c) (hj : j ≠ c) : p₁.view j = p.view j :=
  Pool.view_congr (by rw [h.other j hj]) fun b _ => by rw [h.data]

theorem Locked.view_self {p p₁ : Pool W} {c : Slot W} (h : Locked p p₁ c) :
    p₁.view c = { p.view c with lock := true } := by
  simp [Pool.view, Pool.op, Pool.bytes, h.node, h.data]

/-- The node that `_opera_flush` works on. -/
theorem pick_spec {s : ApiInfo W} {L : ModId → List (Slot W)} (h : SysInv s L) {m : ModId} {l : List (Slot W)}
    {c : Slot W} (hL : L m = l ++ [c]) :
    ∃ p₁, curOrTail (s.mod_info m) s.pool = some (some c, p₁) ∧ PoolOk (heads s) p₁ L ∧ Locked s.pool p₁ c := by
  unfold curOrTail
  rcases h.started m with hr | ⟨-, c', hs⟩
  · refine ⟨s.pool.setNode c { s.pool.node c with lock := true }, ?_, ?_, by simp, fun j hj => by simp [hj], rfl⟩
    · rw [hr.cur]
      simp only
      rw [getTail_spec (h.pool.chain m) (h.pool.length_le m), hL]
      simp
    · refine h.pool.congr (fun j => ?_) (by simp) (by simp) (fun _ j _ => ?_) fun m' j hj hl => ?_
      · by_cases hj : j = c <;> simp [Pool.next, hj]
      · by_cases hj : j = c <;> simp [hj]
      · by_cases hjc : j = c
        · subst hjc
          have : m' = m := h.pool.owner hj (by simp [hL])
          rw [this, hL, List.getLast?_concat]
        · exact h.pool.lock_last m' j hj (by simpa [hjc] using hl)
  · have hcc : c' = c := by
      have := hs.last
      rw [hL, List.getLast?_concat] at this
      exact (Option.some.inj this).symm
    subst hcc
    refine ⟨s.pool, by rw [hs.cur], h.pool, ?_, fun _ _ => rfl, rfl⟩
    have hlock := hs.lock
    cases hn : s.pool.node c'
    simp_all

section OneFlush
variable {s : ApiInfo W} {L : ModId → List (Slot W)} {m : ModId} {l : List (Slot W)} {c : Slot W}

theorem SysInv.last_not_mem (h : SysInv s L) (hL : L m = l ++ [c]) : c ∉ l := fun hc => by
  have hnd := h.pool.nodup m
  rw [hL] at hnd
  exact (List.nodup_append.1 hnd).2.2 c hc c (by simp) rfl

theorem SysInv.ne_last (h : SysInv s L) (hL : L m = l ++ [c]) {m' : ModId} (hm : m' ≠ m) {j : Slot W} (hj : j ∈ L m') :
    j ≠ c := fun he => h.pool.disjoint m' m hm j hj (by simp [hL, he])

theorem queues_locked (h : SysInv s L) (hL : L m = l ++ [c]) {p₁ : Pool W} (hp : Locked s.pool p₁ c) :
    queues p₁ L = Function.update (queues s.pool L) m (l.map s.pool.view ++ [{ s.pool.view c with lock := true }]) := by
  have hl : (L m).map p₁.view = l.map s.pool.view ++ [{ s.pool.view c with lock := true }] := by
    rw [hL, List.map_append, List.map_singleton, hp.view_self]
    congr 1
    exact List.map_congr_left fun j hj => hp.view_other fun he => h.last_not_mem hL (he ▸ hj)
  have := queues_update (L := L) hl fun m' hm j hj => hp.view_other (h.ne_last hL hm hj)
  rwa [Function.update_eq_self] at this

theorem heads_update (s : ApiInfo W) (m : ModId) (mi : ModuleInfo W) (cm : Option ModId) (p : Pool W) (hal : Hal W)
    (t : List Touch) :
    heads { s with mod_info := Function.update s.mod_info m mi, cur_mod := cm, pool := p, hal := hal, touched := t } =
      Function.update (heads s) m mi.opera_info := by
  funext m'
  by_cases hm : m' = m
  · subst hm; simp [heads]
  · simp [heads, Function.update_of_ne hm]

/-- The operation stops half-way. -/
theorem flushStopped_of (h : SysInv s L) (hL : L m = l ++ [c]) (hin : (s.mod_info m).is_inited = true)
    (hrest : ∀ m', m' ≠ m → AtRest s L m') (hcur : s.cur_mod = some m) {p₁ : Pool W} (hok : PoolOk (heads s) p₁ L)
    (hp : Locked s.pool p₁ c) (mid : Mem) (hop : halOp (p₁.node c) ≠ none) {t : List Touch}
    (ht : t = s.touched ∨ t = ⟨m, (opraRange (s.pool.node c)).1, (opraRange (s.pool.node c)).2⟩ :: s.touched) :
    FlushStopped s L m l c mid { s with
      mod_info := Function.update s.mod_info m
        { s.mod_info m with cur_opera_info := some c, state := suspendState (p₁.node c).type },
      pool := p₁, hal := ⟨(p₁.view c).stop mid s.hal.flash, halOp (p₁.node c)⟩, touched := t } := by
  have hheads : heads { s with
      mod_info := Function.update s.mod_info m
        { s.mod_info m with cur_opera_info := some c, state := suspendState (p₁.node c).type },
      pool := p₁, hal := ⟨(p₁.view c).stop mid s.hal.flash, halOp (p₁.node c)⟩, touched := t } = heads s := by
    rw [heads_update]
    exact Function.update_eq_self m _
  refine ⟨hL, ⟨hheads ▸ hok, ?_, ?_, ?_, ?_⟩, queues_locked h hL hp, ?_, ⟨rfl, rfl, rfl, rfl, ?_, ht⟩⟩
  · intro m' hi
    by_cases hm : m' = m
    · subst hm
      simp [hin] at hi
    · exact h.uninited m' (by simpa [Function.update_of_ne hm] using hi)
  · intro m' hm'
    have : m = m' := Option.some.inj (hcur.symm.trans hm')
    subst this
    simpa using hin
  · intro m'
    by_cases hm : m' = m
    · subst hm
      refine .inr ⟨hcur, c, by simp [hL], by simp, by simp [hp.node], by simp, rfl, hop⟩
    · refine .inl ⟨?_, ?_, ?_⟩
      · simpa [Function.update_of_ne hm] using (hrest m' hm).cur
      · simpa [Function.update_of_ne hm] using (hrest m' hm).state
      · intro i hi
        rw [hp.other i (h.ne_last hL hm hi)]
        exact (hrest m' hm).unlocked i hi
  · intro hall
    have := (hall m).cur
    simp at this
  · simp only [hp.view_self]
    rfl
  · intro m'
    by_cases hm : m' = m
    · subst hm; simp [ModuleInfo.reg]
    · simp [Function.update_of_ne hm]

/-- The operation is completed. -/
theorem flushDone_of (h : SysInv s L) (hL : L m = l ++ [c]) (hin : (s.mod_info m).is_inited = true)
    (hrest : ∀ m', m' ≠ m → AtRest s L m') {p₁ p₂ : Pool W} {head' : Option (Slot W)} (hp : Locked s.pool p₁ c)
    (hok : PoolOk (Function.update (heads s) m head') p₂ (Function.update L m l))
    (hbody : ∀ i, (p₂.node i).body = (p₁.node i).body)
    (hq : queues p₂ (Function.update L m l) = Function.update (queues p₁ L) m (l.map p₁.view)) {t : List Touch}
    (ht : t = s.touched ∨ t = ⟨m, (opraRange (s.pool.node c)).1, (opraRange (s.pool.node c)).2⟩ :: s.touched) :
    FlushDone s L m l c { s with
      mod_info := Function.update s.mod_info m
        { s.mod_info m with opera_info := head', cur_opera_info := none, state := .idle },
      pool := p₂, hal := ⟨(p₁.view c).run s.hal.flash, none⟩, touched := t } := by
  have hlock : ∀ i, i ≠ c → (p₂.node i).lock = (s.pool.node i).lock := fun i hi => by
    obtain ⟨-, -, -, -, -, -, hl⟩ := body_congr (hbody i)
    rw [hl, hp.other i hi]
  have hrest' : ∀ m', AtRest { s with
      mod_info := Function.update s.mod_info m
        { s.mod_info m with opera_info := head', cur_opera_info := none, state := .idle },
      pool := p₂, hal := ⟨(p₁.view c).run s.hal.flash, none⟩, touched := t } (Function.update L m l) m' := by
    intro m'
    by_cases hm : m' = m
    · subst hm
      refine ⟨by simp, by simp, fun i hi => ?_⟩
      rw [Function.update_self] at hi
      have hic : i ≠ c := fun he => h.last_not_mem hL (he ▸ hi)
      rw [hlock i hic]
      by_contra hl
      have := h.pool.lock_last m' i (by simp [hL, hi]) (by simpa using hl)
      rw [hL, List.getLast?_concat] at this
      exact hic (Option.some.inj this).symm
    · refine ⟨?_, ?_, fun i hi => ?_⟩
      · simpa [Function.update_of_ne hm] using (hrest m' hm).cur
      · simpa [Function.update_of_ne hm] using (hrest m' hm).state
      · rw [Function.update_of_ne hm] at hi
        rw [hlock i (h.ne_last hL hm hi)]
        exact (hrest m' hm).unlocked i hi
  refine ⟨hL, ⟨?_, ?_, ?_, fun m' => .inl (hrest' m'), fun _ => rfl⟩, ?_, ?_, hrest', ⟨rfl, rfl, rfl, rfl, ?_, ht⟩⟩
  · rw [heads_update]
    exact hok
  · intro m' hi
    by_cases hm : m' = m
    · subst hm
      simp [hin] at hi
    · rw [Function.update_of_ne hm]
      exact h.uninited m' (by simpa [Function.update_of_ne hm] using hi)
  · intro m' hm'
    by_cases hm : m' = m
    · subst hm; simpa using hin
    · simpa [Function.update_of_ne hm] using h.cur_inited m' hm'
  · have hl : l.map p₁.view = l.map s.pool.view :=
      List.map_congr_left fun j hj => hp.view_other fun he => h.last_not_mem hL (he ▸ hj)
    rw [hq, queues_locked h hL hp, Function.update_idem, hl]
  · simp only [hp.view_self]
    rfl
  · intro m'
    by_cases hm : m' = m
    · subst hm; simp [ModuleInfo.reg]
    · simp [Function.update_of_ne hm]

/-- What one call of `_opera_flush` does, when only the module itself may have
an operation suspended. -/
theorem operaFlush_spec (h : SysInv s L) (hin : (s.mod_info m).is_inited = true)
    (hrest : ∀ m', m' ≠ m → AtRest s L m') (nosuspend : Bool) (hcur : nosuspend = false → s.cur_mod = some m)
    (ans : HalAns) :
    ∃ b rep s', operaFlush m nosuspend ans s = some (b, rep, s') ∧
      ((L m = [] ∧ b = false ∧ rep = none ∧ s' = s) ∨
        (∃ l c, b = true ∧ rep = doneReport (s.mod_info m) nosuspend (s.pool.node c) l.length ∧
          FlushDone s L m l c s') ∨
        ∃ l c mid, nosuspend = false ∧ b = true ∧ rep = none ∧ FlushStopped s L m l c mid s') := by
  unfold operaFlush
  rcases List.eq_nil_or_concat (L m) with hnil | ⟨l, c, hL⟩
  · have hr : AtRest s L m := by
      rcases h.started m with hr | ⟨-, c, hs⟩
      · exact hr
      · have := hs.last
        rw [hnil] at this
        cases this
    refine ⟨false, none, s, ?_, .inl ⟨hnil, rfl, rfl, rfl⟩⟩
    simp only [curOrTail, hr.cur]
    rw [getTail_spec (h.pool.chain m) (h.pool.length_le m), hnil]
    rfl
  · rw [List.concat_eq_append] at hL
    obtain ⟨p₁, hpick, hok, hp⟩ := pick_spec h hL
    have hst : (s.mod_info m).state = .idle ∧ s.hal.op = none ∨
        (s.mod_info m).state = suspendState (p₁.node c).type ∧ s.hal.op = halOp (p₁.node c) := by
      rcases h.started m with hr | ⟨-, c', hs⟩
      · refine .inl ⟨hr.state hin, h.hal fun m' => ?_⟩
        by_cases hm : m' = m
        · exact hm ▸ hr
        · exact hrest m' hm
      · have hcc : c' = c := by
          have := hs.last
          rw [hL, List.getLast?_concat] at this
          exact (Option.some.inj this).symm
        subst hcc
        refine .inr ⟨?_, ?_⟩
        · rw [hs.state, hp.node]
        · rw [hs.op, hp.node]
          rfl
    obtain ⟨r, hal, hstart, hstep⟩ := operaStart_spec (hok.typed m c (by simp [hL])) hst nosuspend ans
    have hrange : opraRange (p₁.node c) = opraRange (s.pool.node c) := by rw [hp.node]; rfl
    have htype : (p₁.node c).type = (s.pool.node c).type := by rw [hp.node]
    generalize htouch : (if (s.mod_info m).state = .idle then
      (⟨m, (opraRange (p₁.node c)).1, (opraRange (p₁.node c)).2⟩ : Touch) :: s.touched else s.touched) = t
    have ht : t = s.touched ∨ t = ⟨m, (opraRange (s.pool.node c)).1, (opraRange (s.pool.node c)).2⟩ :: s.touched := by
      rw [← htouch, hrange]
      split
      · exact .inr rfl
      · exact .inl rfl
    simp only [hpick, Option.bind_eq_bind, Option.bind_some, hstart, htouch]
    cases hstep with
    | done =>
      have hhead : ({ s.mod_info m with cur_opera_info := some c, state := .idle } : ModuleInfo W).opera_info =
          heads s m := rfl
      obtain ⟨head', p₂, hdel, hok₂, hbody, hq⟩ := operaDel_spec hok hhead hL
      refine ⟨true, doneReport (s.mod_info m) nosuspend (s.pool.node c) l.length, _, ?_,
        .inr (.inl ⟨l, c, rfl, rfl, flushDone_of h hL hin hrest hp hok₂ hbody hq ht⟩)⟩
      simp only [getEwCount_spec hok (m := m) rfl, Option.bind_some, hdel, hL, List.length_append,
        List.length_singleton, Nat.add_sub_cancel, hrange, htype]
      rfl
    | stopped mid hns hop =>
      have hstop := flushStopped_of h hL hin hrest (hcur hns) hok hp mid hop ht
      exact ⟨true, none, _, rfl, .inr (.inr ⟨l, c, mid, hns, rfl, rfl, hstop⟩)⟩

end OneFlush

/-! ## `norflash_api_flush` -/

section Api
variable {s : ApiInfo W} {L : ModId → List (Slot W)} {m : ModId}

/-- `s` with other values for what `norflash_api_flush` keeps about itself. -/
def ApiInfo.setCur (s : ApiInfo W) (id : Nat) (cm : Option ModId) (allowed_cb : Bool) : ApiInfo W :=
  { s with cur_mod_id := id, cur_mod := cm, allowed_cb := allowed_cb }

theorem AtRest.setCur {id : Nat} {cm : Option ModId} {a : Bool} (h : AtRest s L m) : AtRest (s.setCur id cm a) L m :=
  ⟨h.cur, h.state, h.unlocked⟩

theorem SysInv.setCur (h : SysInv s L) {cm : Option ModId} (hin : ∀ m, cm = some m → (s.mod_info m).is_inited = true)
    (hc : (∀ m, AtRest s L m) ∨ cm = s.cur_mod) (id : Nat) (a : Bool) : SysInv (s.setCur id cm a) L where
  pool := h.pool
  uninited := h.uninited
  cur_inited := hin
  started m := by
    rcases hc with hall | hcm
    · exact .inl (hall m).setCur
    · rcases h.started m with hr | ⟨hm, c, hs⟩
      · exact .inl hr.setCur
      · exact .inr ⟨hcm.trans hm, c, ⟨hs.last, hs.cur, hs.lock, hs.state, hs.op, hs.op_some⟩⟩
  hal hall := h.hal fun m => ⟨(hall m).cur, (hall m).state, (hall m).unlocked⟩

theorem getCurModLoop_spec (h : SysInv s L) (n tmp : Nat) :
    ∃ r, getCurModLoop s n tmp = some r ∧ ∀ m, r = some m → (s.mod_info m).is_inited = true := by
  induction n generalizing tmp with
  | zero => exact ⟨none, rfl, by simp⟩
  | succ n ih =>
    simp only [getCurModLoop]
    generalize (if tmp + 1 ≥ moduleIdCount then 0 else tmp + 1) = t
    by_cases ht : t < moduleIdCount
    · simp only [dif_pos ht]
      by_cases hin : (s.mod_info ⟨t, ht⟩).is_inited = true
      · simp only [if_pos hin, getEwCount_spec h.pool (m := ⟨t, ht⟩) rfl, Option.bind_eq_bind, Option.bind_some]
        by_cases hc : (L ⟨t, ht⟩).length > 0
        · exact ⟨some ⟨t, ht⟩, by rw [if_pos hc], fun m hm => by cases hm; exact hin⟩
        · simpa only [if_neg hc] using ih t
      · simpa only [if_neg hin] using ih t
    · simpa only [dif_neg ht] using ih t

theorem getCurMod_spec (h : SysInv s L) :
    ∃ r, getCurMod s = some r ∧
      ∀ m, r = some m → (s.mod_info m).is_inited = true ∧ (s.cur_mod = some m ∨ s.cur_mod = none) := by
  unfold getCurMod
  cases hc : s.cur_mod with
  | some m =>
    refine ⟨some m, rfl, fun m' hm => ?_⟩
    cases hm
    exact ⟨h.cur_inited m hc, .inl rfl⟩
  | none =>
    obtain ⟨r, hr, hin⟩ := getCurModLoop_spec h moduleIdCount s.cur_mod_id
    exact ⟨r, hr, fun m hm => ⟨hin m hm, .inr rfl⟩⟩

/-- What one call of `norflash_api_flush` does: nothing, or one step of the
oldest operation of a module, for which no callback is left. -/
inductive FlushResult (s : ApiInfo W) (L : ModId → List (Slot W)) : Option OperaResult → ApiInfo W →
    (ModId → List (Slot W)) → Prop
  | quiet (id cm a) : (a = true → s.allowed_cb = true) → SysInv (s.setCur id cm a) L →
    FlushResult s L none (s.setCur id cm a) L
  | done {m l c s'} : SysInv (s.setCur m.val (some m) false) L → FlushDone (s.setCur m.val (some m) false) L m l c s' →
    FlushResult s L (doneReport (s.mod_info m) false (s.pool.node c) l.length) s' (Function.update L m l)
  | stopped {m l c mid s'} : SysInv (s.setCur m.val (some m) false) L →
    FlushStopped (s.setCur m.val (some m) false) L m l c mid s' → FlushResult s L none s' L

/-- The callback is gone when the flush is allowed, and there when it is not. -/
theorem flushIsAllowed_spec (allowed : Bool) (s : ApiInfo W) :
    ∃ r, flushIsAllowed allowed s = (r, s.setCur s.cur_mod_id s.cur_mod !r) ∧
      (r = false → s.allowed_cb = true ∧ allowed = false) := by
  unfold flushIsAllowed
  by_cases h : s.allowed_cb = true
  · cases allowed with
    | true => exact ⟨true, by simp [h, ApiInfo.setCur], by simp⟩
    | false =>
      have hs : s.setCur s.cur_mod_id s.cur_mod true = s := by rw [ApiInfo.setCur, ← h]
      exact ⟨false, by simp [h, hs], fun _ => ⟨h, rfl⟩⟩
  · have h : s.allowed_cb = false := by simpa using h
    have hs : s.setCur s.cur_mod_id s.cur_mod false = s := by rw [ApiInfo.setCur, ← h]
    exact ⟨true, by simp [h, hs], by simp⟩

theorem norflashApiFlush_spec (h : SysInv s L) (env : FlushEnv) :
    ∃ code rep s' L', norflashApiFlush env s = some (code, rep, s') ∧ FlushResult s L rep s' L' := by
  have hself : ∀ a, SysInv (s.setCur s.cur_mod_id s.cur_mod a) L := fun a =>
    h.setCur h.cur_inited (.inr rfl) s.cur_mod_id a
  unfold norflashApiFlush
  by_cases hi : s.is_inited = true
  · obtain ⟨allowed, hallow, hcb⟩ := flushIsAllowed_spec env.allowed s
    simp only [hi, Bool.not_true, Bool.false_eq_true, if_false, hallow]
    by_cases ha : allowed = true
    · obtain ⟨r, hr, hm⟩ := getCurMod_spec (hself false)
      simp only [ha, Bool.not_true, Bool.false_eq_true, if_false, hr, Option.bind_eq_bind, Option.bind_some]
      cases r with
      | none => exact ⟨_, _, _, L, rfl, .quiet _ _ _ (by simp) (hself false)⟩
      | some m =>
        obtain ⟨hin, hcur⟩ := hm m rfl
        have hrest : ∀ m', m' ≠ m → AtRest s L m' := fun m' hne => h.rest fun hc => by
          rcases hcur with hcur | hcur
          · exact hne (Option.some.inj (hc.symm.trans hcur))
          · have := hc.symm.trans hcur
            cases this
        have hinv : SysInv (s.setCur m.val (some m) false) L := by
          refine h.setCur (fun m' hm' => by cases hm'; exact hin) ?_ m.val false
          rcases hcur with hcur | hcur
          · exact .inr hcur.symm
          · exact .inl fun m' => h.rest fun hc => by
              have := hc.symm.trans hcur
              cases this
        obtain ⟨b, rep, s', hrun, hcase⟩ := operaFlush_spec hinv hin (fun m' hne => (hrest m' hne).setCur)
          false (fun _ => rfl) env.hal
        have hrun' : operaFlush m false env.hal { s.setCur s.cur_mod_id s.cur_mod false with
            cur_mod_id := m.val, cur_mod := some m } = some (b, rep, s') := hrun
        simp only [hrun', Option.bind_some]
        rcases hcase with ⟨hnil, rfl, rfl, rfl⟩ | ⟨l, c, rfl, rfl, hd⟩ | ⟨l, c, mid, -, rfl, rfl, hst⟩
        · refine ⟨_, _, _, L, rfl, .quiet m.val none false (by simp) ?_⟩
          refine h.setCur (by simp) (.inl fun m' => ?_) m.val false
          by_cases hne : m' = m
          · rcases h.started m' with hr | ⟨-, c, hs⟩
            · exact hr
            · have := hs.last
              rw [hne, hnil] at this
              cases this
          · exact hrest m' hne
        · exact ⟨_, _, _, _, rfl, .done hinv hd⟩
        · exact ⟨_, _, _, L, rfl, .stopped hinv hst⟩
    · have ha : allowed = false := by simpa using ha
      simp only [ha, Bool.not_false]
      exact ⟨_, _, _, L, rfl, .quiet _ _ _ (fun _ => (hcb ha).1) (hself true)⟩
  · have hi' : s.is_inited = false := by simpa using hi
    simp only [hi', Bool.not_false, if_true]
    exact ⟨_, _, _, L, rfl, .quiet s.cur_mod_id s.cur_mod s.allowed_cb id (hself _)⟩

end Api

end Norflash
