import LittleBuddy.Norflash.Capacity
import Mathlib
/-!
# Calls that find the pools empty

An asynchronous call that returns `BUFFER_FULL` should leave no trace. An erase
leaves none. A write that finds a node and no data buffer has filled in the
node's record before it gives the node back; the record matters to nobody,
unless a list still refers to the node.
-/
open NorMem LinkedPool Runs

namespace Norflash

variable {W : Nat}

/-! ## A record that nobody refers to -/

/-- A list of a module, or the operation it has suspended, refers to the slot. -/
def Linked (s : ApiInfo W) (i : Slot W) : Prop :=
  ∃ m, Reaches s.pool.next (s.mod_info m).opera_info i ∨ (s.mod_info m).cur_opera_info = some i

/-- The state with another record in one slot. -/
def ApiInfo.put (s : ApiInfo W) (i : Slot W) (n : OpraInfo W) : ApiInfo W := { s with pool := s.pool.setNode i n }

section Put
variable {p p' : Pool W} {i c : Slot W} {n : OpraInfo W} {head : Option (Slot W)}

theorem setNode_comm (p : Pool W) {i j : Slot W} (h : j ≠ i) (n n' : OpraInfo W) :
    (p.setNode i n).setNode j n' = (p.setNode j n').setNode i n := by
  simp only [Pool.setNode, Pool.mk.injEq, and_true]
  funext k
  simp only [Function.update_apply]
  split <;> split <;> simp_all

theorem useNode_setNode (p : Pool W) {i j : Slot W} (h : j ≠ i) (n : OpraInfo W) (u : Bool) :
    (p.setNode i n).useNode j u = (p.useNode j u).setNode i n := by
  simp only [Pool.setNode, Pool.useNode, Pool.mk.injEq, and_true]
  funext k
  simp only [Function.update_apply]
  split <;> split <;> simp_all

theorem next_put (hc : c ≠ i) : (p.setNode i n).next c = p.next c := by
  simp [Pool.next, hc]

theorem ne_of_reaches (hi : ¬ Reaches p.next head i) (hc : Reaches p.next head c) : c ≠ i := fun he => hi (he ▸ hc)

theorem head_ne (hi : ¬ Reaches p.next head i) : head ≠ some i := fun he => hi (he ▸ .here)

theorem getCount_put (hi : ¬ Reaches p.next head i) (f : OpraInfo W → Bool) :
    getCount f head (p.setNode i n) = getCount f head p := by
  unfold getCount
  congr 1
  refine walk_congr (fun a ha => ?_) _ _
  have hne := ne_of_reaches hi ha
  exact ⟨next_put hne, fun s q => by simp [hne]⟩

/-- The last cell of a list, as `_get_tail` finds it. -/
def tailOf (next : Slot W → Option (Slot W)) (head : Option (Slot W)) : Option (Option (Slot W)) :=
  (walk (ρ := Empty) next
    (fun (s : Option (Slot W) × Option (Slot W)) i tmp => .inr (some i, if tmp.isSome then some i else s.2))
    (walkFuel W) (none, head) head).map fun r => (r.elim Empty.elim id).1

def lockNode (p : Pool W) (i : Slot W) : Pool W := p.setNode i { p.node i with lock := true }

theorem getTail_eq (mi : ModuleInfo W) (p : Pool W) :
    getTail mi false p = (tailOf p.next mi.opera_info).map fun o => (o, o.elim p (lockNode p)) := by
  unfold getTail tailOf
  cases walk (ρ := Empty) p.next _ (walkFuel W) (none, mi.opera_info) mi.opera_info with
  | none => rfl
  | some r =>
    match r with
    | .inr (none, pre) => rfl
    | .inr (some a, pre) => rfl

theorem tailOf_reaches (h : tailOf p.next head = some (some c)) : Reaches p.next head c := by
  obtain ⟨r, hr, hc⟩ := Option.map_eq_some_iff.1 h
  have hreach : Sum.elim (fun _ : Empty => True)
      (fun s : Option (Slot W) × Option (Slot W) => ∀ a, s.1 = some a → Reaches p.next head a) r := by
    refine walk_inv (fun s a q ha _ => ?_) (by simp) hr
    intro b hb
    exact Option.some.inj hb ▸ ha
  match r, hc, hreach with
  | .inr s, hc, hreach => exact hreach c hc

theorem tailOf_put (hi : ¬ Reaches p.next head i) : tailOf (p.setNode i n).next head = tailOf p.next head := by
  unfold tailOf
  rw [walk_congr fun a ha => ⟨next_put (ne_of_reaches hi ha), fun _ _ => rfl⟩]

theorem curOrTail_put {mi : ModuleInfo W} (hi : ¬ Reaches p.next mi.opera_info i) :
    curOrTail mi (p.setNode i n) = (curOrTail mi p).map fun r => (r.1, r.2.setNode i n) := by
  unfold curOrTail
  cases mi.cur_opera_info with
  | some c => rfl
  | none =>
    simp only [getTail_eq, tailOf_put hi]
    cases ht : tailOf p.next mi.opera_info with
    | none => rfl
    | some o =>
      cases o with
      | none => rfl
      | some c =>
        have hne := ne_of_reaches hi (tailOf_reaches ht)
        simp [lockNode, hne, setNode_comm p hne]

/-- The node that `_opera_flush` works on is one that its module refers to. -/
theorem curOrTail_reaches {mi : ModuleInfo W} (hrun : curOrTail mi p = some (some c, p')) :
    (Reaches p.next mi.opera_info c ∨ mi.cur_opera_info = some c) ∧ p'.next = p.next := by
  unfold curOrTail at hrun
  split at hrun
  · rename_i c' hc
    cases hrun
    exact ⟨.inr hc, rfl⟩
  · rw [getTail_eq] at hrun
    obtain ⟨o, ho, he⟩ := Option.map_eq_some_iff.1 hrun
    cases he
    refine ⟨.inl (tailOf_reaches ho), ?_⟩
    funext j
    by_cases hj : j = c <;> simp [lockNode, Pool.next, hj]

theorem setNext_put {pre tmp : Option (Slot W)} (hpre : pre ≠ some i) :
    (p.setNode i n).setNext pre tmp = (p.setNext pre tmp).map (·.setNode i n) := by
  cases pre with
  | none => rfl
  | some j =>
    have hne : j ≠ i := fun he => hpre (congrArg some he)
    simp [Pool.setNext, hne, setNode_comm p hne]

/-- `_opera_del` behind its search: it unlinks and frees the node it has found. -/
def unlinkFree (mi : ModuleInfo W) (node : Slot W) (pre_node : Option (Slot W)) (p : Pool W) :
    Option (ModuleInfo W × Pool W) :=
  (if mi.opera_info = some node then some ({ mi with opera_info := none }, p)
    else (p.setNext pre_node none).map (mi, ·)).map fun r =>
      (r.1, ((r.2.node node).buff.elim r.2 r.2.freeBuff).freeNode node)

/-- The search of `_opera_del`. -/
def preOf (next : Slot W → Option (Slot W)) (node : Slot W) (head : Option (Slot W)) :
    Option (Option (Slot W) ⊕ Option (Slot W)) :=
  walk next (fun (pre_node : Option (Slot W)) i tmp =>
      if i = node then .inl pre_node else .inr (if tmp.isSome then some i else pre_node)) (walkFuel W) head head

theorem operaDel_eq (mi : ModuleInfo W) (node : Slot W) (p : Pool W) :
    operaDel mi node p = (preOf p.next node mi.opera_info).bind
      (Sum.elim (fun pre => unlinkFree mi node pre p) fun _ => some (mi, p)) := by
  unfold operaDel preOf
  cases walk p.next _ (walkFuel W) mi.opera_info mi.opera_info with
  | none => rfl
  | some r =>
    cases r with
    | inr _ => rfl
    | inl pre =>
      simp only [Option.bind_eq_bind, Option.bind_some, Sum.elim_inl, unlinkFree]
      split
      · simp only [Option.map_some]
        cases (p.node node).buff <;> rfl
      · cases p.setNext pre none with
        | none => rfl
        | some p₁ =>
          simp only [Option.map_some, Option.bind_some]
          cases (p₁.node node).buff <;> rfl

theorem unlinkFree_put {mi : ModuleInfo W} {pre : Option (Slot W)} (hpre : pre ≠ some i) (hc : c ≠ i) :
    unlinkFree mi c pre (p.setNode i n) = (unlinkFree mi c pre p).map fun r => (r.1, r.2.setNode i n) := by
  have hfree : ∀ q : Pool W, ((((q.setNode i n).node c).buff.elim (q.setNode i n) (q.setNode i n).freeBuff).freeNode c) =
      (((q.node c).buff.elim q q.freeBuff).freeNode c).setNode i n := by
    intro q
    rw [Pool.node_setNode, if_neg hc]
    cases (q.node c).buff with
    | none => exact useNode_setNode q hc n false
    | some b => exact useNode_setNode (q.freeBuff b) hc n false
  unfold unlinkFree
  split
  · simp only [Option.map_some, hfree]
  · rw [setNext_put hpre]
    simp only [Option.map_map]
    congr 1
    funext q
    simp only [Function.comp, hfree]

theorem preOf_ne (hi : ¬ Reaches p.next head i) {pre : Option (Slot W)} (h : preOf p.next c head = some (.inl pre)) :
    pre ≠ some i := by
  refine walk_inv (I := (· ≠ some i)) (J := (· ≠ some i)) (fun s a q ha hs => ?_) (head_ne hi) h
  have hne : some a ≠ some i := fun he => ne_of_reaches hi ha (Option.some.inj he)
  split
  · exact hs
  · by_cases hq : q.isSome
    · simpa [hq] using hne
    · simpa [hq] using hs

theorem operaDel_put {mi : ModuleInfo W} (hi : ¬ Reaches p.next mi.opera_info i) (hc : c ≠ i) :
    operaDel mi c (p.setNode i n) = (operaDel mi c p).map fun r => (r.1, r.2.setNode i n) := by
  have hpre : preOf (p.setNode i n).next c mi.opera_info = preOf p.next c mi.opera_info :=
    walk_congr (fun a ha => ⟨next_put (ne_of_reaches hi ha), fun _ _ => rfl⟩) _ _
  rw [operaDel_eq, operaDel_eq, hpre]
  cases hrun : preOf p.next c mi.opera_info with
  | none => rfl
  | some r =>
    cases r with
    | inr _ => rfl
    | inl pre => exact unlinkFree_put (preOf_ne hi hrun) hc

/-- `_opera_del` cuts a list, and leaves the module's other fields. -/
theorem operaDel_cut {mi mi' : ModuleInfo W} (h : operaDel mi c p = some (mi', p')) :
    (∀ a, p'.next a = p.next a ∨ p'.next a = none) ∧ mi'.cur_opera_info = mi.cur_opera_info ∧
      (mi'.opera_info = mi.opera_info ∨ mi'.opera_info = none) := by
  rw [operaDel_eq] at h
  obtain ⟨r, -, h⟩ := Option.bind_eq_some_iff.1 h
  cases r with
  | inr _ =>
    cases h
    exact ⟨fun _ => .inl rfl, rfl, .inl rfl⟩
  | inl pre =>
    obtain ⟨⟨mi₁, p₁⟩, hrun, he⟩ := Option.map_eq_some_iff.1 h
    cases he
    have hfree : ∀ a, (((p₁.node c).buff.elim p₁ p₁.freeBuff).freeNode c).next a = p₁.next a := fun a => by
      cases (p₁.node c).buff <;> simp [Pool.next, Pool.freeNode, Pool.freeBuff]
    simp only [hfree]
    split at hrun
    · cases hrun
      exact ⟨fun _ => .inl rfl, rfl, .inr rfl⟩
    · obtain ⟨p₂, hset, he⟩ := Option.map_eq_some_iff.1 hrun
      cases he
      obtain ⟨j, -, rfl⟩ := Option.map_eq_some_iff.1 hset
      refine ⟨fun a => ?_, rfl, .inl rfl⟩
      by_cases ha : a = j <;> simp [Pool.next, ha]

end Put

/-! ## Calls do not see such a record -/

section Calls
variable {s : ApiInfo W} {i : Slot W} {n : OpraInfo W} {m : ModId}

theorem not_reaches (hi : ¬ Linked s i) (m : ModId) : ¬ Reaches s.pool.next (s.mod_info m).opera_info i :=
  fun h => hi ⟨m, .inl h⟩

/-- The search of `_opera_read`. -/
def readFind (sec : Nat) (p : Pool W) (head : Option (Slot W)) : Option (Slot W ⊕ Unit) :=
  walk p.next (fun (_ : Unit) i _ => if (p.node i).addr = sec then .inl i else .inr ()) (walkFuel W) () head

theorem readFind_put {p : Pool W} {head : Option (Slot W)} (hi : ¬ Reaches p.next head i) (sec : Nat) :
    readFind sec (p.setNode i n) head = readFind sec p head := by
  refine walk_congr (fun a ha => ?_) _ _
  have hne := ne_of_reaches hi ha
  exact ⟨next_put hne, fun _ _ => by rw [Pool.node_setNode, if_neg hne]⟩

theorem readFind_reaches {p : Pool W} {head : Option (Slot W)} {sec : Nat} {c : Slot W}
    (h : readFind sec p head = some (.inl c)) : Reaches p.next head c := by
  refine walk_inv (I := fun _ => True) (J := Reaches p.next head) (fun s a q ha _ => ?_) trivial h
  split
  · exact ha
  · trivial

theorem operaRead_put {mi : ModuleInfo W} {p : Pool W} (hi : ¬ Reaches p.next mi.opera_info i) (addr : Nat) (flash : Mem) :
    operaRead mi addr (p.setNode i n) flash = operaRead mi addr p flash := by
  unfold operaRead
  change (readFind _ _ _).bind _ = (readFind _ _ _).bind _
  rw [readFind_put hi]
  cases hr : readFind (addr / mi.mod_sector_len * mi.mod_sector_len) p mi.opera_info with
  | none => rfl
  | some r =>
    cases r with
    | inl c =>
      simp only [Option.bind_some, Pool.node_setNode, if_neg (ne_of_reaches hi (readFind_reaches hr)), Pool.data_setNode]
    | inr _ => rfl

theorem norflashApiRead_put (hi : ¬ Linked s i) (id addr len : Nat) :
    norflashApiRead id addr len (s.put i n) = norflashApiRead id addr len s := by
  unfold norflashApiRead ApiInfo.put
  simp only
  split
  · rfl
  split
  · rename_i hid
    rw [operaRead_put (not_reaches hi ⟨id, hid⟩)]
  · rfl

/-- `_opera_flush` works on what its module refers to, and refers to nothing more afterwards. -/
theorem operaFlush_put (hi : ¬ Linked s i) (nosuspend : Bool) (ans : HalAns) :
    operaFlush m nosuspend ans (s.put i n) = (operaFlush m nosuspend ans s).map fun r => (r.1, r.2.1, r.2.2.put i n) := by
  have hr := not_reaches hi m
  unfold operaFlush
  simp only [ApiInfo.put, curOrTail_put hr]
  cases hcur : curOrTail (s.mod_info m) s.pool with
  | none => rfl
  | some t =>
    obtain ⟨cur, p⟩ := t
    cases cur with
    | none => rfl
    | some c =>
      obtain ⟨hc, hnext⟩ := curOrTail_reaches hcur
      have hne : c ≠ i := fun he => hi ⟨m, he ▸ hc⟩
      have hr' : ¬ Reaches p.next (s.mod_info m).opera_info i := hnext ▸ hr
      simp only [Option.map_some, Option.bind_eq_bind, Option.bind_some, Pool.node_setNode, if_neg hne,
        Pool.data_setNode]
      cases operaStart (p.node c) (s.mod_info m).state p.data_list (!nosuspend) ans s.hal with
      | none => rfl
      | some t =>
        obtain ⟨res, hal⟩ := t
        cases res with
        | ok =>
          simp only [Option.bind_some, getEwCount, getCount_put hr']
          cases getCount (fun _ => true) (s.mod_info m).opera_info p with
          | none => rfl
          | some k =>
            simp only [Option.bind_some]
            have hdel : operaDel { s.mod_info m with cur_opera_info := some c, state := .idle } c (p.setNode i n) =
                (operaDel { s.mod_info m with cur_opera_info := some c, state := .idle } c p).map fun r =>
                  (r.1, r.2.setNode i n) := operaDel_put hr' hne
            rw [hdel]
            cases operaDel { s.mod_info m with cur_opera_info := some c, state := .idle } c p <;> rfl
        | suspended => rfl
        | badOp => rfl

/-- Nothing becomes linked by a flush. -/
theorem operaFlush_linked {nosuspend : Bool} {ans : HalAns} {b : Bool} {rep : Option OperaResult} {s' : ApiInfo W}
    (h : operaFlush m nosuspend ans s = some (b, rep, s')) (hl : Linked s' i) : Linked s i := by
  unfold operaFlush at h
  obtain ⟨⟨cur, p⟩, hcur, h⟩ := Option.bind_eq_some_iff.1 h
  cases cur with
  | none =>
    cases h
    exact hl
  | some c =>
    obtain ⟨hc, hnext⟩ := curOrTail_reaches hcur
    obtain ⟨⟨res, hal⟩, -, h⟩ := Option.bind_eq_some_iff.1 h
    cases res with
    | ok =>
      obtain ⟨k, -, h⟩ := Option.bind_eq_some_iff.1 h
      obtain ⟨⟨mi', p'⟩, hdel, h⟩ := Option.bind_eq_some_iff.1 h
      cases h
      obtain ⟨hcut, -, hhead⟩ := operaDel_cut hdel
      rw [hnext] at hcut
      obtain ⟨m', hl | hl⟩ := hl
      · refine ⟨m', .inl ?_⟩
        have hl := hl.of_cut hcut
        by_cases hm : m' = m
        · subst hm
          simp only [Function.update_self] at hl
          rcases hhead with he | he
          · exact he ▸ hl
          · rw [he] at hl
            cases hl
        · simpa [Function.update_of_ne hm] using hl
      · refine ⟨m', .inr ?_⟩
        by_cases hm : m' = m
        · subst hm
          simp at hl
        · simpa [Function.update_of_ne hm] using hl
    | suspended =>
      cases h
      obtain ⟨m', hl⟩ := hl
      by_cases hm : m' = m
      · subst hm
        simp only [Function.update_self, hnext] at hl
        rcases hl with hl | hl
        · exact ⟨m', .inl hl⟩
        · cases hl
          exact ⟨m', hc⟩
      · simp only [Function.update_of_ne hm, hnext] at hl
        exact ⟨m', hl⟩
    | badOp => cases h

theorem getCurModLoop_put (hi : ¬ Linked s i) (k id : Nat) : getCurModLoop (s.put i n) k id = getCurModLoop s k id := by
  induction k generalizing id with
  | zero => rfl
  | succ k ih =>
    have hcount : ∀ m : ModId, getEwCount ((s.put i n).mod_info m) (s.put i n).pool = getEwCount (s.mod_info m) s.pool :=
      fun m => getCount_put (not_reaches hi m) _
    simp only [getCurModLoop, ih, hcount]
    rfl

theorem getCurMod_put (hi : ¬ Linked s i) : getCurMod (s.put i n) = getCurMod s := by
  unfold getCurMod
  simp only [getCurModLoop_put hi]
  rfl

theorem flushIsAllowed_put (allowed : Bool) :
    flushIsAllowed allowed (s.put i n) = ((flushIsAllowed allowed s).1, (flushIsAllowed allowed s).2.put i n) := by
  unfold flushIsAllowed ApiInfo.put
  simp only
  split
  · split <;> rfl
  · rfl

/-- Asking for permission moves nothing in the lists. -/
theorem flushIsAllowed_linked (allowed : Bool) : Linked (flushIsAllowed allowed s).2 i ↔ Linked s i := by
  unfold flushIsAllowed
  split
  · split <;> exact Iff.rfl
  · exact Iff.rfl

theorem norflashApiFlush_put (hi : ¬ Linked s i) (env : FlushEnv) :
    norflashApiFlush env (s.put i n) = (norflashApiFlush env s).map fun r => (r.1, r.2.1, r.2.2.put i n) := by
  unfold norflashApiFlush
  rw [flushIsAllowed_put]
  rcases hf : flushIsAllowed env.allowed s with ⟨allowed, s₁⟩
  have hi₁ : ¬ Linked s₁ i := by
    have := flushIsAllowed_linked (s := s) (i := i) env.allowed
    rw [hf] at this
    exact mt this.1 hi
  simp only [getCurMod_put hi₁]
  change (if (!s.is_inited) = true then _ else _) = Option.map _ (if (!s.is_inited) = true then _ else _)
  split
  · rfl
  split
  · rfl
  cases getCurMod s₁ with
  | none => rfl
  | some cur =>
    cases cur with
    | none => rfl
    | some m =>
      have hop := operaFlush_put (n := n) (m := m) (s := { s₁ with cur_mod_id := m.val, cur_mod := some m }) hi₁ false
        env.hal
      simp only [Option.bind_eq_bind, Option.bind_some, Option.map_bind]
      change Option.bind (operaFlush m false env.hal
        (ApiInfo.put { s₁ with cur_mod_id := m.val, cur_mod := some m } i n)) _ = _
      rw [hop]
      cases operaFlush m false env.hal { s₁ with cur_mod_id := m.val, cur_mod := some m } with
      | none => rfl
      | some r =>
        obtain ⟨b, rep, s₂⟩ := r
        cases b <;> rfl

theorem norflashApiFlush_linked {env : FlushEnv} {code : Int} {rep : Option OperaResult} {s' : ApiInfo W}
    (h : norflashApiFlush env s = some (code, rep, s')) (hl : Linked s' i) : Linked s i := by
  unfold norflashApiFlush at h
  have hallow := flushIsAllowed_linked (s := s) (i := i) env.allowed
  generalize flushIsAllowed env.allowed s = t at h hallow
  obtain ⟨allowed, s₁⟩ := t
  simp only at h hallow
  split at h
  · cases h
    exact hl
  split at h
  · cases h
    exact hallow.1 hl
  obtain ⟨cur, -, h⟩ := Option.bind_eq_some_iff.1 h
  cases cur with
  | none =>
    cases h
    exact hallow.1 hl
  | some m =>
    obtain ⟨⟨b, rep', s₂⟩, hop, h⟩ := Option.bind_eq_some_iff.1 h
    cases h
    have hl₂ : Linked s₂ i := by cases b <;> exact hl
    exact hallow.1 (operaFlush_linked (s := { s₁ with cur_mod_id := m.val, cur_mod := some m }) hop hl₂)

/-- A drain: flush calls with any answers. -/
def flushes : List FlushEnv → ApiInfo W → Option (ApiInfo W)
  | [], s => some s
  | env :: envs, s => do
    let (_, _, s) ← norflashApiFlush env s
    flushes envs s

theorem flushes_put (hi : ¬ Linked s i) (envs : List FlushEnv) :
    flushes envs (s.put i n) = (flushes envs s).map (·.put i n) := by
  induction envs generalizing s with
  | nil => rfl
  | cons env envs ih =>
    simp only [flushes, norflashApiFlush_put hi]
    cases hf : norflashApiFlush env s with
    | none => rfl
    | some r =>
      obtain ⟨code, rep, s'⟩ := r
      exact ih fun hl => hi (norflashApiFlush_linked hf hl)

end Calls

/-! ## What is left of a call that finds no room -/

def QueueOp.exec (op : QueueOp) (m : ModId) (s : ApiInfo W) : Option (Ret × ApiInfo W) :=
  match op with
  | .erase start_addr len => (norflashApiErase m.val start_addr len true [] s).map fun r => (r.1, r.2.2)
  | .write start_addr len buffer => (norflashApiWrite m.val start_addr buffer len true [] s).map fun r => (r.1, r.2.2)

/-- The modules' lists, the pools and the logical content are as before. -/
structure Unchanged (s s' : ApiInfo W) : Prop where
  mods : s'.mod_info = s.mod_info
  turn : s'.cur_mod_id = s.cur_mod_id ∧ s'.cur_mod = s.cur_mod ∧ s'.allowed_cb = s.allowed_cb
  lists : ∀ i, Linked s i → s'.pool.node i = s.pool.node i
  in_use : ∀ i, (s'.pool.opera_info_list i).is_used = (s.pool.opera_info_list i).is_used
  buffers : s'.pool.data_list = s.pool.data_list
  hal : s'.hal = s.hal
  reads : ∀ id addr len, norflashApiRead id addr len s' = norflashApiRead id addr len s
  drains : ∀ envs, (flushes envs s').map (·.hal) = (flushes envs s).map (·.hal)

theorem Unchanged.refl (s : ApiInfo W) : Unchanged s s :=
  ⟨rfl, ⟨rfl, rfl, rfl⟩, fun _ _ => rfl, fun _ => rfl, rfl, rfl, fun _ _ _ => rfl, fun _ => rfl⟩

theorem unchanged_put {s : ApiInfo W} {i : Slot W} (hi : ¬ Linked s i) (n : OpraInfo W) : Unchanged s (s.put i n) where
  mods := rfl
  turn := ⟨rfl, rfl, rfl⟩
  lists j hj := by
    have hne : j ≠ i := fun he => hi (he ▸ hj)
    simp [ApiInfo.put, hne]
  in_use j := Pool.used_setNode s.pool i j n
  buffers := rfl
  hal := rfl
  reads := norflashApiRead_put hi
  drains envs := by
    rw [flushes_put hi, Option.map_map]
    rfl

/-- The record of a node that `_w_opera_add` has taken and filled in, without a buffer. -/
def filledIn (mi : ModuleInfo W) (addr len : Nat) (n : OpraInfo W) : OpraInfo W :=
  { n with type := .writting, addr := sectorOf mi addr, len := mi.mod_sector_len, w_offs := addr - sectorOf mi addr,
           w_len := len, buff := none }

/-- The call does not overwrite a record in use: it fills in the record of the
first unused node, and that one is not linked or holds the same already. -/
def QueueOp.Spares (op : QueueOp) (m : ModId) (s : ApiInfo W) : Prop :=
  match op with
  | .erase _ _ => True
  | .write addr len _ => ∀ i, s.pool.mallocNode.1 = some i →
    ¬ Linked s i ∨ s.pool.node i = filledIn (s.mod_info m) addr len (s.pool.node i)

/-- An erase that finds no room has done nothing. -/
theorem eOperaAdd_full {mi mi' : ModuleInfo W} {addr len : Nat} {p p' : Pool W} {r : Int}
    (hrun : eOperaAdd mi addr len p = some (r, mi', p')) (hr : r ≠ 0) : mi' = mi ∧ p' = p := by
  obtain ⟨hfull, l, hl, hpass⟩ := (eOperaAdd_full_iff mi addr len p).1 ⟨r, mi', p', hrun, hr⟩
  unfold eOperaAdd at hrun
  rw [eOperaAddLoop_passed hl hpass] at hrun
  rcases hm : p.mallocNode with ⟨_ | i, p₁⟩
  · obtain ⟨rfl, -⟩ := Pool.mallocNode_none hm
    simp only [Option.bind_eq_bind, Option.bind_some, Bool.false_eq_true, if_false, hm, Option.some.injEq,
      Prod.mk.injEq] at hrun
    exact ⟨hrun.2.1.symm, hrun.2.2.symm⟩
  · exact absurd ⟨i, (Pool.mallocNode_some hm).1⟩ hfull

/-- What a write that finds no room has done. -/
theorem wOperaAdd_full {mi mi' : ModuleInfo W} {addr len : Nat} {buff : Nat → UInt8} {p p' : Pool W} {flash : Mem}
    {r : Int} (hrun : wOperaAdd mi addr len buff p flash = some (r, mi', p')) (hr : r ≠ 0) :
    mi' = mi ∧ ((p.mallocNode.1 = none ∧ p' = p) ∨
      ∃ i, p.mallocNode.1 = some i ∧ p' = p.setNode i (filledIn mi addr len (p.node i))) := by
  have hnew : ∀ {init : Nat → UInt8}, wOperaNew mi (sectorOf mi addr) (addr - sectorOf mi addr) len buff init p =
      some (r, mi', p') → mi' = mi ∧ ((p.mallocNode.1 = none ∧ p' = p) ∨
        ∃ i, p.mallocNode.1 = some i ∧ p' = p.setNode i (filledIn mi addr len (p.node i))) := by
    intro init hrun
    unfold wOperaNew at hrun
    rcases hm : p.mallocNode with ⟨_ | i, p₁⟩
    · rw [hm] at hrun
      cases hrun
      exact ⟨rfl, .inl ⟨rfl, (Pool.mallocNode_none hm).1⟩⟩
    · rw [hm] at hrun
      obtain ⟨⟨b, p₂⟩, hb, hrun⟩ := Option.bind_eq_some_iff.1 hrun
      obtain ⟨hfree, rfl⟩ := Pool.mallocNode_some hm
      cases b with
      | none =>
        cases Pool.mallocBuff_none hb
        cases hrun
        refine ⟨rfl, .inr ⟨i, rfl, ?_⟩⟩
        -- taking the node and giving it back leaves only the record
        simp only [Pool.freeNode, Pool.useNode, Pool.setNode, Pool.mk.injEq, and_true]
        funext k
        simp only [Function.update_apply]
        split
        · rename_i hk
          subst hk
          simp [hfree, filledIn, Pool.node]
        · rfl
      | some b =>
        simp only at hrun
        split at hrun
        · cases hrun
        · cases hrun
          exact absurd rfl hr
  unfold wOperaAdd at hrun
  obtain ⟨found, -, hrun⟩ := Option.bind_eq_some_iff.1 hrun
  rcases found with (i | _) | _
  · obtain ⟨b, -, hrun⟩ := Option.bind_eq_some_iff.1 hrun
    split at hrun
    · cases hrun
    · cases hrun
      exact absurd rfl hr
  · exact hnew hrun
  · exact hnew hrun

/-- The state that a call which returns `BUFFER_FULL` leaves. -/
theorem QueueOp.exec_full {op : QueueOp} {m : ModId} {s s' : ApiInfo W} (h : op.exec m s = some (.bufferFull, s')) :
    s' = s ∧ (∀ addr len buffer, op = .write addr len buffer → s.pool.mallocNode.1 = none) ∨
      ∃ i addr len buffer, op = .write addr len buffer ∧ s.pool.mallocNode.1 = some i ∧
        s' = s.put i (filledIn (s.mod_info m) addr len (s.pool.node i)) := by
  cases op with
  | erase addr len =>
    obtain ⟨⟨r, sc, s₁⟩, hrun, he⟩ := Option.map_eq_some_iff.1 h
    cases he
    refine .inl ⟨?_, by simp⟩
    generalize hr : Ret.bufferFull = r at hrun
    cases norflashApiErase_outcome hrun with
    | refused _ hfull => exact absurd hr.symm hfull
    | @queued _ result _ _ hm _ _ hadd =>
      cases Fin.ext hm
      have hr₁ : result ≠ 0 := fun h0 => by simp [h0] at hr
      obtain ⟨rfl, rfl⟩ := eOperaAdd_full hadd hr₁
      simp
    | drained _ _ _ hasync => cases hasync
  | write addr len buffer =>
    obtain ⟨⟨r, sc, s₁⟩, hrun, he⟩ := Option.map_eq_some_iff.1 h
    cases he
    generalize hr : Ret.bufferFull = r at hrun
    cases norflashApiWrite_outcome hrun with
    | refused _ hfull => exact absurd hr.symm hfull
    | @queued _ result _ _ hm _ _ hadd =>
      cases Fin.ext hm
      have hr₁ : result ≠ 0 := fun h0 => by simp [h0] at hr
      obtain ⟨rfl, ⟨hnone, rfl⟩ | ⟨i, hi, rfl⟩⟩ := wOperaAdd_full hadd hr₁
      · exact .inl ⟨by simp, fun _ _ _ _ => hnone⟩
      · exact .inr ⟨i, addr, len, buffer, rfl, hi, by simp [ApiInfo.put]⟩
    | drained _ _ _ hasync => cases hasync

theorem put_self (s : ApiInfo W) (i : Slot W) : s.put i (s.pool.node i) = s := by
  simp [ApiInfo.put, Pool.setNode, Pool.node]

/-- A call that returns `BUFFER_FULL` leaves everything as it was exactly when
it overwrites no record in use. -/
theorem full_unchanged_iff (s s' : ApiInfo W) (m : ModId) (op : QueueOp) (h : op.exec m s = some (.bufferFull, s')) :
    Unchanged s s' ↔ op.Spares m s := by
  rcases QueueOp.exec_full h with ⟨rfl, hnone⟩ | ⟨i, addr, len, buffer, rfl, hi, rfl⟩
  · refine iff_of_true (.refl _) ?_
    cases op with
    | erase _ _ => trivial
    | write addr len buffer =>
      intro i hi
      rw [hnone addr len buffer rfl] at hi
      cases hi
  · constructor
    · intro hu j hj
      rw [hi] at hj
      cases hj
      by_cases hl : Linked s i
      · have := hu.lists i hl
        exact .inr (by simpa [ApiInfo.put] using this.symm)
      · exact .inl hl
    · intro hsp
      rcases hsp i hi with hl | he
      · exact unchanged_put hl _
      · rw [← he, put_self]
        exact .refl s

/-- As long as every erase has met `EraseSafe`, what is linked is in use. -/
theorem spares_of_listCond {flash : Mem} {s : Sys W} {evs : List Event}
    (h : Run step ListCond (· = initial W flash) s evs) (m : ModId) (op : QueueOp) : op.Spares m s.api := by
  have hinv : ∃ L, SysInv s.api L := by
    refine h.inv (fun s => ∃ L, SysInv s.api L) ?_ fun e s s' hi hc ht => ?_
    · rintro _ rfl
      exact ⟨_, sysInv_initial flash⟩
    · obtain ⟨L, hL⟩ := hi
      exact step_sysInv hL hc ht
  obtain ⟨L, hL⟩ := hinv
  cases op with
  | erase _ _ => trivial
  | write addr len buffer =>
    intro i hi
    have hm : s.api.pool.mallocNode = (some i, s.api.pool.mallocNode.2) := by rw [← hi]
    have hfree := (Pool.mallocNode_some hm).1
    refine .inl ?_
    rintro ⟨m', hr | hc⟩
    · exact hL.pool.not_mem hfree m' (hr.mem_of_chain (hL.pool.chain m'))
    · rcases hL.started m' with hrest | ⟨-, c, hs⟩
      · rw [hrest.cur] at hc
        cases hc
      · rw [hs.cur] at hc
        cases hc
        exact hL.pool.not_mem hfree m' (List.mem_of_getLast? hs.last)

/-- A write that finds no data buffer, after calls that keep the lists in order. -/
theorem full_unchanged_example : ∃ s s' : ApiInfo 1,
    (QueueOp.write 0x3C001000 1 fun _ => 2).exec 0 s = some (.bufferFull, s') ∧ Unchanged s s' := by
  obtain ⟨s, hr, hg⟩ := run_of_check 1 ListCond (fun _ => 0)
    [.register (eightSectors 0 0x3C000000), .erase 0 0x3C000000 0x1000, .write 0 0x3C000000 [1]]
    (fun s => decide (((QueueOp.write 0x3C001000 1 fun _ => 2).exec 0 s.api).map (·.1) = some .bufferFull))
    (by decide +kernel)
  obtain ⟨⟨r, s'⟩, hexec, hfull⟩ := Option.map_eq_some_iff.1 (of_decide_eq_true hg)
  simp only at hfull
  subst hfull
  exact ⟨s.api, s', hexec, (full_unchanged_iff s.api s' 0 _ hexec).2 (spares_of_listCond hr 0 _)⟩

/-- An erase that drops two neighbouring nodes leaves a freed node in the list.
A write that finds no data buffer fills that node in: the list now holds a
write of the data that was turned down, without a buffer, and a read follows it. -/
theorem full_changed : ¬ ∀ (W : Nat) (flash : Mem) (s : Sys W) (evs : List Event),
    Run step (fun _ _ => True) (· = initial W flash) s evs → ∀ (m : ModId) (op : QueueOp) (s' : ApiInfo W),
      op.exec m s.api = some (.bufferFull, s') → Unchanged s.api s' := by
  intro hclaim
  obtain ⟨s, hr, hg⟩ := run_of_check 1 (fun _ _ => True) (fun _ => 0)
    [.register (eightSectors 0 0), .erase 0 0 0x1000, .erase 0 0x1000 0x1000, .erase 0 0x2000 0x1000,
      .erase 0 0x3000 0x1000, .write 0 0x3000 [1], .erase 0 0x4000 0x1000, flushOk, flushOk, .erase 0 0x3000 0x1000,
      .write 0 0x5000 [1]]
    (fun s => decide (norflashApiRead 0 0x6000 1 s.api = some (.ok, [0]) ∧
      ((QueueOp.write 0x6000 1 fun _ => 1).exec 0 s.api).map (fun r => (r.1, norflashApiRead 0 0x6000 1 r.2)) =
        some (.bufferFull, none))) (by decide +kernel)
  obtain ⟨hread, hafter⟩ := of_decide_eq_true hg
  obtain ⟨⟨r, s'⟩, hexec, he⟩ := Option.map_eq_some_iff.1 hafter
  simp only [Prod.mk.injEq] at he
  obtain ⟨rfl, hread'⟩ := he
  have := (hclaim 1 _ s _ hr 0 _ s' hexec).reads 0 0x6000 1
  rw [hread', hread] at this
  cases this

end Norflash
