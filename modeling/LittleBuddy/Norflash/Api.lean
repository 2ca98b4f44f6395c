import LittleBuddy.Norflash.Flush
/-!
# The interface functions

`norflash_api_register` and the asynchronous `norflash_api_erase` and
`norflash_api_write` in terms of the abstract queues, and `norflash_api_read`.
-/
open NorMem LinkedPool

namespace Norflash

variable {W : Nat} {s : ApiInfo W} {L : ModId → List (Slot W)} {m : ModId}

/-! ## Queueing keeps the invariant -/

theorem enqErase_unlocked {addr len : Nat} {q : List QNode} (h : ∀ n ∈ q, n.lock = false) :
    ∀ n ∈ enqErase addr len q, n.lock = false := by
  intro n hn
  rcases enqErase_mem hn with hn | rfl
  · exact h n hn
  · rfl

theorem enqWrite_unlocked {sec offs len : Nat} {data : Nat → UInt8} {flash : Mem} {q : List QNode} (hl : LockLast q)
    (h : ∀ n ∈ q, n.lock = false) : ∀ n ∈ enqWrite sec offs len data flash q, n.lock = false := by
  have hw := enqWrite_cases sec offs len data flash hl
  generalize enqWrite sec offs len data flash q = q' at hw
  cases hw with
  | merged he _ _ hfree _ =>
    subst he
    intro n hn
    rcases List.mem_append.1 hn with h' | h'
    · exact h n (by simp [h'])
    · rcases List.mem_cons.1 h' with rfl | h'
      · exact hfree
      · exact h n (by simp [h'])
  | over_erase => exact List.forall_mem_cons.2 ⟨rfl, h⟩
  | over_flash _ _ => exact List.forall_mem_cons.2 ⟨rfl, h⟩

theorem halOp_congr {n n' : OpraInfo W} (h : n.body = n'.body) : halOp n = halOp n' := by
  obtain ⟨ht, ha, hl, ho, hw, hb, -⟩ := body_congr h
  simp only [halOp, ht, ha, hl, ho, hw, hb]

/-- The state after a function has queued something for module `m`. -/
def ApiInfo.queued (s : ApiInfo W) (m : ModId) (head' : Option (Slot W)) (p' : Pool W) : ApiInfo W :=
  { s with mod_info := Function.update s.mod_info m { s.mod_info m with opera_info := head' }, pool := p' }

@[simp] theorem queued_reg (head' : Option (Slot W)) (p' : Pool W) (m' : ModId) :
    ((s.queued m head' p').mod_info m').reg = (s.mod_info m').reg := by
  by_cases hm : m' = m
  · subst hm; simp [ApiInfo.queued, ModuleInfo.reg]
  · simp [ApiInfo.queued, Function.update_of_ne hm]

theorem SysInv.queued (h : SysInv s L) (hin : (s.mod_info m).is_inited = true) {head' : Option (Slot W)} {p' : Pool W}
    {q : List QNode} {L' : ModId → List (Slot W)}
    (hst : Stepped s.pool p' L (Function.update (heads s) m head') m q L')
    (hq : (∀ n ∈ queues s.pool L m, n.lock = false) → ∀ n ∈ q, n.lock = false) :
    SysInv (s.queued m head' p') L' := by
  have hheads : heads (s.queued m head' p') = Function.update (heads s) m head' := by
    funext m'
    by_cases hm : m' = m
    · subst hm; simp [heads, ApiInfo.queued]
    · simp [heads, ApiInfo.queued, Function.update_of_ne hm]
  have hsame : ∀ m', ((s.queued m head' p').mod_info m').is_inited = (s.mod_info m').is_inited ∧
      ((s.queued m head' p').mod_info m').cur_opera_info = (s.mod_info m').cur_opera_info ∧
      ((s.queued m head' p').mod_info m').state = (s.mod_info m').state := by
    intro m'
    by_cases hm : m' = m
    · subst hm; simp [ApiInfo.queued]
    · simp [ApiInfo.queued, Function.update_of_ne hm]
  have hqm : ∀ m', queues p' L' m' = if m' = m then q else queues s.pool L m' := fun m' => by
    rw [hst.queue]
    by_cases hm : m' = m <;> simp [hm]
  have hlocks : ∀ m', (∀ i ∈ L m', (s.pool.node i).lock = false) → ∀ i ∈ L' m', (p'.node i).lock = false := by
    intro m' hall i hi
    have hold : ∀ n ∈ queues s.pool L m', n.lock = false := by
      intro n hn
      obtain ⟨j, hj, rfl⟩ := List.mem_map.1 hn
      exact hall j hj
    have hnew : ∀ n ∈ queues p' L' m', n.lock = false := by
      rw [hqm]
      split
      · rename_i hm
        exact hq (hm ▸ hold)
      · exact hold
    exact hnew _ (List.mem_map_of_mem hi)
  have hsusp : ∀ m' c, Suspended s L m' c → Suspended (s.queued m head' p') L' m' c := by
    intro m' c hs
    obtain ⟨hmem, hbody⟩ := hst.locked m' c (List.mem_of_getLast? hs.last) hs.lock
    obtain ⟨ht, -, -, -, -, -, hl⟩ := body_congr hbody
    have hlock : (p'.node c).lock = true := hl.trans hs.lock
    refine ⟨hst.ok.lock_last m' c hmem hlock, (hsame m').2.1.trans hs.cur, hlock, ?_, ?_, hs.op_some⟩
    · rw [(hsame m').2.2, hs.state]
      exact congrArg suspendState ht.symm
    · exact hs.op.trans (halOp_congr hbody).symm
  have hrest : ∀ m', AtRest s L m' → AtRest (s.queued m head' p') L' m' := fun m' hr =>
    ⟨(hsame m').2.1.trans hr.cur, fun hi => (hsame m').2.2.trans (hr.state ((hsame m').1 ▸ hi)), hlocks m' hr.unlocked⟩
  constructor
  · rw [hheads]; exact hst.ok
  · intro m' hi
    rw [(hsame m').1] at hi
    have hne : m' ≠ m := fun he => by rw [he, hin] at hi; cases hi
    have := hqm m'
    rw [if_neg hne, queues, queues, h.uninited m' hi] at this
    simpa using this
  · intro m' hm'
    rw [(hsame m').1]
    exact h.cur_inited m' hm'
  · intro m'
    rcases h.started m' with hr | ⟨hm, c, hs⟩
    · exact .inl (hrest m' hr)
    · exact .inr ⟨hm, c, hsusp m' c hs⟩
  · intro hall
    refine h.hal fun m' => ?_
    rcases h.started m' with hr | ⟨-, c, hs⟩
    · exact hr
    · exact absurd (hsusp m' c hs) (hall m').not_suspended

/-! ## The calls -/

/-- The outcomes of a queueing call for the module number `id`: refused, no
buffer or node free, or queued, where `f` gives the module's new queue. -/
inductive EnqResult (s : ApiInfo W) (L : ModId → List (Slot W)) (id : Nat) (f : ModId → List QNode) :
    Ret → ApiInfo W → (ModId → List (Slot W)) → Prop
  | refused {r} : r ≠ .ok → EnqResult s L id f r s L
  | full {m head' p' L'} : SysInv (s.queued m head' p') L' → queues p' L' = queues s.pool L →
    EnqResult s L id f .bufferFull (s.queued m head' p') L'
  | queued {m head' p' L'} : m.val = id → (s.mod_info m).is_inited = true → SysInv (s.queued m head' p') L' →
    queues p' L' = Function.update (queues s.pool L) m (f m) → EnqResult s L id f .ok (s.queued m head' p') L'

/-- The sector of an address, as a module divides its addresses. -/
def sectorOf (mi : ModuleInfo W) (addr : Nat) : Nat := addr / mi.mod_sector_len * mi.mod_sector_len

theorem enqResult_of {id : Nat} {f : ModId → List QNode} (h : SysInv s L) (hm : m.val = id)
    (hin : (s.mod_info m).is_inited = true) {r : Int} {head' : Option (Slot W)} {p' : Pool W}
    {L' : ModId → List (Slot W)}
    (hst : Stepped s.pool p' L (Function.update (heads s) m head') m (if r = 0 then f m else queues s.pool L m) L')
    (hf : (∀ n ∈ queues s.pool L m, n.lock = false) → ∀ n ∈ f m, n.lock = false) :
    EnqResult s L id f (if r = 0 then .ok else .bufferFull) (s.queued m head' p') L' := by
  by_cases hr : r = 0
  · rw [if_pos hr] at hst ⊢
    exact .queued hm hin (h.queued hin hst hf) hst.queue
  · rw [if_neg hr] at hst ⊢
    exact .full (h.queued hin hst fun hall => hall) (hst.queue.trans (Function.update_eq_self m _))

/-- How an erase or a write ends: a check turns it down, it is queued (`add`), or
the module's queue is drained and the HAL called (`exec`). -/
inductive Outcome (id addr len : Nat) (async : Bool) (add : ModId → Option (Int × ModuleInfo W × Pool W))
    (exec : Hal W → HalRet × Hal W) (script : List FlushEnv) (s : ApiInfo W) :
    Ret → List FlushEnv → ApiInfo W → Prop
  | refused {r} : r ≠ .ok → r ≠ .bufferFull → Outcome id addr len async add exec script s r script s
  | queued {m result mi p} : m.val = id → (s.mod_info m).is_inited = true → async = true →
    add m = some (result, mi, p) → Outcome id addr len async add exec script s
      (if result = 0 then .ok else .bufferFull) script { s with mod_info := Function.update s.mod_info m mi, pool := p }
  | drained {m script' s₁} : m.val = id → s.is_inited = true → (s.mod_info m).is_inited = true → async = false →
    drainAll m script s = some (script', s₁) → Outcome id addr len async add exec script s
      (syncResult (exec s₁.hal).1) script'
      { s₁ with hal := (exec s₁.hal).2, touched := ⟨m, addr, len⟩ :: s₁.touched }

section Outcome
variable {id addr len : Nat} {async : Bool} {script script' : List FlushEnv} {r : Ret} {s' : ApiInfo W}

theorem norflashApiErase_outcome (hrun : norflashApiErase id addr len async script s = some (r, script', s')) :
    Outcome id addr len async (fun m => eOperaAdd (s.mod_info m) addr len s.pool) (·.erase addr len) script s r script'
      s' := by
  unfold norflashApiErase at hrun
  dsimp only at hrun
  split at hrun
  · cases hrun
    exact .refused (by simp) (by simp)
  rename_i hs
  split at hrun
  · rename_i hid
    split at hrun
    · cases hrun
      exact .refused (by simp) (by simp)
    rename_i hm
    split at hrun
    · cases hrun
      exact .refused (by simp) (by simp)
    split at hrun
    · cases hrun
      exact .refused (by simp) (by simp)
    split at hrun
    · cases hrun
      exact .refused (by simp) (by simp)
    -- behind the checks
    split at hrun
    · obtain ⟨⟨result, mi, p⟩, hadd, hrun⟩ := Option.bind_eq_some_iff.1 hrun
      cases hrun
      exact .queued (m := ⟨id, hid⟩) rfl (by simpa using hm) ‹_› hadd
    · rename_i hasync
      obtain ⟨⟨script₁, s₁⟩, hdrain, hrun⟩ := Option.bind_eq_some_iff.1 hrun
      cases hrun
      exact .drained (m := ⟨id, hid⟩) rfl (by simpa using hs) (by simpa using hm) (by simpa using hasync) hdrain
  · cases hrun
    exact .refused (by simp) (by simp)

theorem norflashApiWrite_outcome {buffer : Nat → UInt8}
    (hrun : norflashApiWrite id addr buffer len async script s = some (r, script', s')) :
    Outcome id addr len async (fun m => wOperaAdd (s.mod_info m) addr len buffer s.pool s.hal.flash)
      (·.write addr len buffer) script s r script' s' := by
  unfold norflashApiWrite at hrun
  dsimp only at hrun
  split at hrun
  · cases hrun
    exact .refused (by simp) (by simp)
  rename_i hs
  split at hrun
  · cases hrun
    exact .refused (by simp) (by simp)
  split at hrun
  · rename_i hid
    split at hrun
    · cases hrun
      exact .refused (by simp) (by simp)
    rename_i hm
    split at hrun
    · cases hrun
      exact .refused (by simp) (by simp)
    split at hrun
    · cases hrun
      exact .refused (by simp) (by simp)
    -- behind the checks
    split at hrun
    · obtain ⟨⟨result, mi, p⟩, hadd, hrun⟩ := Option.bind_eq_some_iff.1 hrun
      cases hrun
      exact .queued (m := ⟨id, hid⟩) rfl (by simpa using hm) ‹_› hadd
    · rename_i hasync
      obtain ⟨⟨script₁, s₁⟩, hdrain, hrun⟩ := Option.bind_eq_some_iff.1 hrun
      cases hrun
      exact .drained (m := ⟨id, hid⟩) rfl (by simpa using hs) (by simpa using hm) (by simpa using hasync) hdrain
  · cases hrun

end Outcome

theorem norflashApiErase_spec (h : SysInv s L) (id addr len : Nat) (script : List FlushEnv)
    (hclean : ∀ m : ModId, m.val = id → EraseClean addr s.pool (L m)) :
    ∃ r s' L', norflashApiErase id addr len true script s = some (r, script, s') ∧
      EnqResult s L id (fun m => enqErase addr len (queues s.pool L m)) r s' L' := by
  unfold norflashApiErase
  split
  · exact ⟨_, _, _, rfl, .refused (by simp)⟩
  split
  · rename_i hid
    simp only [if_true]
    split
    · exact ⟨_, _, _, rfl, .refused (by simp)⟩
    rename_i hin
    split
    · exact ⟨_, _, _, rfl, .refused (by simp)⟩
    split
    · exact ⟨_, _, _, rfl, .refused (by simp)⟩
    split
    · exact ⟨_, _, _, rfl, .refused (by simp)⟩
    obtain ⟨r, head', p', L', hrun, -, hst⟩ := eOperaAdd_spec h.pool (m := ⟨id, hid⟩) rfl addr len (hclean _ rfl)
    exact ⟨_, _, _, by rw [hrun]; rfl, enqResult_of h rfl (by simpa using hin) hst enqErase_unlocked⟩
  · exact ⟨_, _, _, rfl, .refused (by simp)⟩

theorem norflashApiWrite_spec (h : SysInv s L) {id addr len : Nat} {buffer : Nat → UInt8} {script script' : List FlushEnv}
    {r : Ret} {s' : ApiInfo W} (hrun : norflashApiWrite id addr buffer len true script s = some (r, script', s')) :
    ∃ L', EnqResult s L id (fun m => enqWrite (sectorOf (s.mod_info m) addr)
      (addr - sectorOf (s.mod_info m) addr) len buffer s.hal.flash (queues s.pool L m)) r s' L' := by
  cases norflashApiWrite_outcome hrun with
  | refused hok => exact ⟨L, .refused hok⟩
  | queued hm hin _ hadd =>
    obtain ⟨head', L', rfl, -, -, hst⟩ := wOperaAdd_spec h.pool rfl hadd
    exact ⟨L', enqResult_of h hm hin hst (enqWrite_unlocked (h.pool.lockLast _))⟩
  | drained _ _ _ hasync => cases hasync

/-- A module that was not registered has an empty list, and starts at rest. -/
theorem SysInv.fresh (h : SysInv s L) (hin : (s.mod_info m).is_inited = false) {mi : ModuleInfo W}
    (hhead : mi.opera_info = none) (hcur : mi.cur_opera_info = none) (hstate : mi.state = .idle)
    (hmi : mi.is_inited = true) : SysInv { s with mod_info := Function.update s.mod_info m mi } L := by
  have hnil : L m = [] := h.uninited m hin
  have hheads : heads { s with mod_info := Function.update s.mod_info m mi } = heads s := by
    funext m'
    by_cases hm : m' = m
    · subst hm
      have := (h.pool.chain m').head_eq
      rw [hnil] at this
      simp [heads, hhead] at this ⊢
      exact this.symm
    · simp [heads, Function.update_of_ne hm]
  have hrest : ∀ m', AtRest s L m' → AtRest { s with mod_info := Function.update s.mod_info m mi } L m' := by
    intro m' hr
    by_cases hm : m' = m
    · subst hm
      exact ⟨by simp [hcur], by simp [hstate], hr.unlocked⟩
    · refine ⟨?_, ?_, hr.unlocked⟩
      · simpa [Function.update_of_ne hm] using hr.cur
      · simpa [Function.update_of_ne hm] using hr.state
  have hnot : ∀ {m' c}, Suspended s L m' c → m' ≠ m := fun hs he => by
    have := hs.last
    rw [he, hnil] at this
    cases this
  constructor
  · rw [hheads]; exact h.pool
  · intro m' hi
    by_cases hm : m' = m
    · exact hm ▸ hnil
    · exact h.uninited m' (by simpa [Function.update_of_ne hm] using hi)
  · intro m' hm'
    by_cases hm : m' = m
    · subst hm; simpa using hmi
    · simpa [Function.update_of_ne hm] using h.cur_inited m' hm'
  · intro m'
    rcases h.started m' with hr | ⟨hm', c, hs⟩
    · exact .inl (hrest m' hr)
    · refine .inr ⟨hm', c, ⟨hs.last, ?_, hs.lock, ?_, hs.op, hs.op_some⟩⟩
      · simpa [Function.update_of_ne (hnot hs)] using hs.cur
      · simpa [Function.update_of_ne (hnot hs)] using hs.state
  · intro hall
    refine h.hal fun m' => ?_
    rcases h.started m' with hr | ⟨-, c, hs⟩
    · exact hr
    · have := (hall m').cur
      simp only [Function.update_of_ne (hnot hs), hs.cur] at this
      cases this

theorem norflashApiRegister_spec (h : SysInv s L) (r : Registration) :
    SysInv (norflashApiRegister r s).2 L ∧ (norflashApiRegister r s).2.pool = s.pool ∧
      (norflashApiRegister r s).2.hal = s.hal ∧
      ∀ m, ((norflashApiRegister r s).2.mod_info m).is_inited = true →
        ((norflashApiRegister r s).2.mod_info m = s.mod_info m ∨
          ((norflashApiRegister r s).2.mod_info m).mod_sector_len = r.mod_sector_len) := by
  unfold norflashApiRegister
  split
  · exact ⟨h, rfl, rfl, fun _ _ => .inl rfl⟩
  split
  · rename_i hid
    split
    · exact ⟨h, rfl, rfl, fun _ _ => .inl rfl⟩
    split
    · exact ⟨h, rfl, rfl, fun _ _ => .inl rfl⟩
    simp only
    split
    · exact ⟨h, rfl, rfl, fun _ _ => .inl rfl⟩
    · rename_i hin
      have hin' : (s.mod_info ⟨r.mod_id, hid⟩).is_inited = false := by simpa using hin
      refine ⟨?_, rfl, rfl, fun m _ => ?_⟩
      · exact h.fresh hin' rfl rfl rfl rfl
      · by_cases hm : m = ⟨r.mod_id, hid⟩
        · subst hm
          exact .inr (by simp)
        · exact .inl (by simp [Function.update_of_ne hm])
  · exact ⟨h, rfl, rfl, fun _ _ => .inl rfl⟩

/-- A read returns what the newest pending operation of its sector shows. -/
theorem norflashApiRead_spec (h : SysInv s L) (id addr len : Nat) :
    ∃ r bytes, norflashApiRead id addr len s = some (r, bytes) ∧ (r = .ok → ∃ m : ModId, m.val = id ∧
      (s.mod_info m).is_inited = true ∧ ∀ sec, sectorOf (s.mod_info m) addr = sec →
        bytes = (List.range len).map fun j =>
          newest (secOps sec (queues s.pool L m)) (fun j => s.hal.flash (sec + j)) (addr - sec + j)) := by
  unfold norflashApiRead
  split
  · exact ⟨_, _, rfl, by simp⟩
  split
  · rename_i hid
    simp only
    split
    · exact ⟨_, _, rfl, by simp⟩
    rename_i hin
    split
    · exact ⟨_, _, rfl, by simp⟩
    split
    · exact ⟨_, _, rfl, by simp⟩
    rw [operaRead_spec h.pool (m := ⟨id, hid⟩) rfl rfl s.hal.flash]
    exact ⟨_, _, rfl, fun _ => ⟨⟨id, hid⟩, rfl, by simpa using hin, fun sec hsec => by rw [← hsec]; rfl⟩⟩
  · exact ⟨_, _, rfl, by simp⟩

end Norflash
