import LittleBuddy.Norflash.Api
import LittleBuddy.Lib.Runs
/-!
# Runs of the deferred flash queue

Runs of the component from power on: registrations, asynchronous erases and
writes, flush calls with any answers of the HAL and of the flush callback, and
switching that callback. Next to the component a run carries the memory that
executing every accepted call at once would have produced. Each call has one
lemma that says what it preserves and what it does to the queues.
-/
open NorMem LinkedPool Runs

namespace Norflash

variable {W : Nat}

/-! ## Runs -/

inductive Event where
  | register (r : Registration)
  | erase (mod_id addr len : Nat)
  | write (mod_id addr : Nat) (data : List UInt8)
  | flush (env : FlushEnv)
  | flushDisable
  | flushEnable

/-- The component, and the memory of direct execution. -/
structure Sys (W : Nat) where
  api : ApiInfo W
  direct : Mem

/-- The buffer that holds `data`. -/
def bufferOf (data : List UInt8) : Nat → UInt8 := fun j => data.getD j 0

namespace Sys

/-- An asynchronous erase; an operation that is accepted is also executed directly. -/
def erase (mod_id addr len : Nat) (s : Sys W) : Option (Ret × Sys W) := do
  let (r, _, api) ← norflashApiErase mod_id addr len true [] s.api
  some (r, ⟨api, if r = .ok then NorMem.erase s.direct addr len else s.direct⟩)

/-- An asynchronous write. -/
def write (mod_id addr : Nat) (data : Nat → UInt8) (len : Nat) (s : Sys W) : Option (Ret × Sys W) := do
  let (r, _, api) ← norflashApiWrite mod_id addr data len true [] s.api
  some (r, ⟨api, if r = .ok then program s.direct addr len data else s.direct⟩)

def flush (env : FlushEnv) (s : Sys W) : Option (Sys W) := do
  let (_, _, api) ← norflashApiFlush env s.api
  some { s with api }

end Sys

/-- One call. -/
def step : Event → Sys W → Option (Sys W)
  | .register r, s => some { s with api := (norflashApiRegister r s.api).2 }
  | .erase mod_id addr len, s => (s.erase mod_id addr len).map (·.2)
  | .write mod_id addr data, s => (s.write mod_id addr (bufferOf data) data.length).map (·.2)
  | .flush env, s => s.flush env
  | .flushDisable, s => some { s with api := norflashApiFlushDisable s.api }
  | .flushEnable, s => some { s with api := norflashApiFlushEnable s.api }

/-- The static data after power on. -/
def powerOn (W : Nat) (flash : Mem) : ApiInfo W where
  is_inited := false
  mod_info := fun _ => ⟨false, 0, 0, 0, 0, 0, 0, 0, 0, false, none, none, .uninited⟩
  cur_mod_id := 0
  cur_mod := none
  allowed_cb := false
  pool := ⟨fun _ => ⟨false, ⟨.writting, 0, 0, 0, 0, none, false, none⟩⟩, fun _ => ⟨false, fun _ => 0⟩⟩
  hal := ⟨flash, none⟩
  touched := []

/-- After `norflash_api_init`. -/
def initial (W : Nat) (flash : Mem) : Sys W := ⟨norflashApiInit (powerOn W flash), flash⟩

/-- The slots of a module's pending operations, newest first. -/
def pendingSlots (s : ApiInfo W) (m : ModId) : Option (List (Slot W)) :=
  collect s.pool.next (walkFuel W) (s.mod_info m).opera_info

/-- The erase meets no two neighbouring nodes of its sector behind another node. -/
def EraseSafe (s : ApiInfo W) (mod_id addr : Nat) : Prop :=
  ∀ m : ModId, m.val = mod_id → ∀ l ∈ pendingSlots s m, EraseClean addr s.pool l

/-- No other module has an operation pending on the sector. -/
def OwnSector (s : ApiInfo W) (mod_id sec : Nat) : Prop :=
  ∀ m : ModId, m.val ≠ mod_id → ∀ l ∈ pendingSlots s m, ∀ i ∈ l, (s.pool.node i).addr ≠ sec

/-- The newest pending operation of the sector is not a write that has been started. -/
def NotStarted (s : ApiInfo W) (mod_id sec : Nat) : Prop :=
  ∀ m : ModId, m.val = mod_id → ∀ l ∈ pendingSlots s m, newestStarted sec (l.map s.pool.view) = false

/-- Sector erases, and writes inside a sector that only clear bits. -/
def SectorCall : Event → Sys W → Prop
  | .register r, _ => r.mod_sector_len = sectorSize
  | .erase _ addr len, _ => addr % sectorSize = 0 ∧ len = sectorSize
  | .write _ addr data, s => addr % sectorSize + data.length ≤ sectorSize ∧
    ∀ j < data.length, Clears (s.direct (addr + j)) (bufferOf data j)
  | _, _ => True

/-- What keeps the lists of the pools apart. -/
def ListCond : Event → Sys W → Prop
  | .erase mod_id addr _, s => EraseSafe s.api mod_id addr
  | _, _ => True

/-- What keeps the queues in step with direct execution. -/
def QueueCond (e : Event) (s : Sys W) : Prop :=
  SectorCall e s ∧ ListCond e s ∧
    match e with
    | .erase mod_id addr _ => OwnSector s.api mod_id addr
    | .write mod_id addr _ => OwnSector s.api mod_id (addr / sectorSize * sectorSize)
    | _ => True

/-- What keeps reads in step with direct execution. -/
def ReadCond (e : Event) (s : Sys W) : Prop :=
  QueueCond e s ∧
    match e with
    | .write mod_id addr _ => NotStarted s.api mod_id (addr / sectorSize * sectorSize)
    | _ => True

section Decidable
variable (s : ApiInfo W) (mod_id a : Nat)

instance (p : Pool W) (l : List (Slot W)) : Decidable (EraseClean a p l) := inferInstanceAs (Decidable (List.IsChain _ _))
instance : Decidable (EraseSafe s mod_id a) := inferInstanceAs (Decidable (∀ _, _))
instance : Decidable (OwnSector s mod_id a) := inferInstanceAs (Decidable (∀ _, _))
instance : Decidable (NotStarted s mod_id a) := inferInstanceAs (Decidable (∀ _, _))
instance (old data : UInt8) : Decidable (Clears old data) := inferInstanceAs (Decidable (_ = _))

instance (e : Event) (s : Sys W) : Decidable (SectorCall e s) :=
  match e with
  | .register _ => inferInstanceAs (Decidable (_ = _))
  | .erase .. => inferInstanceAs (Decidable (_ ∧ _))
  | .write .. => inferInstanceAs (Decidable (_ ∧ ∀ _, _))
  | .flush _ | .flushDisable | .flushEnable => inferInstanceAs (Decidable True)

instance (e : Event) (s : Sys W) : Decidable (ListCond e s) :=
  match e with
  | .erase mod_id addr _ => inferInstanceAs (Decidable (EraseSafe s.api mod_id addr))
  | .register _ | .write .. | .flush _ | .flushDisable | .flushEnable => inferInstanceAs (Decidable True)

instance (e : Event) (s : Sys W) : Decidable (QueueCond e s) :=
  match e with
  | .erase .. | .write .. => inferInstanceAs (Decidable (_ ∧ _ ∧ OwnSector _ _ _))
  | .register _ | .flush _ | .flushDisable | .flushEnable => inferInstanceAs (Decidable (_ ∧ _ ∧ True))

instance (e : Event) (s : Sys W) : Decidable (ReadCond e s) :=
  match e with
  | .write .. => inferInstanceAs (Decidable (_ ∧ NotStarted _ _ _))
  | .erase .. | .register _ | .flush _ | .flushDisable | .flushEnable => inferInstanceAs (Decidable (_ ∧ True))

end Decidable

/-! ## What one call preserves -/

theorem pendingSlots_of {s : ApiInfo W} {L : ModId → List (Slot W)} (h : SysInv s L) (m : ModId) :
    pendingSlots s m = some (L m) :=
  collect_of_chain (h.pool.chain m) (h.pool.length_le m)

theorem sysInv_initial (flash : Mem) : SysInv (initial W flash).api fun _ => [] where
  pool := by constructor <;> simp [initial, norflashApiInit, powerOn, heads, Chain]
  uninited _ _ := rfl
  cur_inited m hm := by simp [initial, norflashApiInit] at hm
  started m := .inl ⟨rfl, by simp [initial, norflashApiInit], by simp⟩
  hal _ := rfl

theorem Sys.erase_sysInv {s s' : Sys W} {L : ModId → List (Slot W)} (h : SysInv s.api L) {mod_id addr len : Nat}
    (hsafe : EraseSafe s.api mod_id addr) {r : Ret} (ht : s.erase mod_id addr len = some (r, s')) :
    ∃ L', EnqResult s.api L mod_id (fun m => enqErase addr len (queues s.api.pool L m)) r s'.api L' ∧
      s'.direct = if r = .ok then NorMem.erase s.direct addr len else s.direct := by
  obtain ⟨⟨r₁, sc, api⟩, hr, ht⟩ := Option.bind_eq_some_iff.1 ht
  cases ht
  obtain ⟨r', s₁, L', hrun, hres⟩ := norflashApiErase_spec h mod_id addr len []
    fun m hm => hsafe m hm (L m) (pendingSlots_of h m)
  rw [hrun] at hr
  cases hr
  exact ⟨L', hres, rfl⟩

theorem Sys.write_sysInv {s s' : Sys W} {L : ModId → List (Slot W)} (h : SysInv s.api L) {mod_id addr len : Nat}
    {data : Nat → UInt8} {r : Ret} (ht : s.write mod_id addr data len = some (r, s')) :
    ∃ L', EnqResult s.api L mod_id (fun m => enqWrite (sectorOf (s.api.mod_info m) addr)
        (addr - sectorOf (s.api.mod_info m) addr) len data s.api.hal.flash (queues s.api.pool L m)) r s'.api L' ∧
      s'.direct = if r = .ok then program s.direct addr len data else s.direct := by
  obtain ⟨⟨r₁, sc, api⟩, hr, ht⟩ := Option.bind_eq_some_iff.1 ht
  cases ht
  obtain ⟨L', hres⟩ := norflashApiWrite_spec h hr
  exact ⟨L', hres, rfl⟩

theorem EnqResult.sysInv {s s' : ApiInfo W} {L L' : ModId → List (Slot W)} {id : Nat} {f : ModId → List QNode} {r : Ret}
    (h : SysInv s L) (hres : EnqResult s L id f r s' L') : SysInv s' L' := by
  cases hres with
  | refused => exact h
  | full hi => exact hi
  | queued _ _ hi => exact hi

/-- Every call of a run leaves the lists in order. -/
theorem step_sysInv {e : Event} {s s' : Sys W} {L : ModId → List (Slot W)} (h : SysInv s.api L) (hc : ListCond e s)
    (ht : step e s = some s') : ∃ L', SysInv s'.api L' := by
  cases e with
  | register r =>
    cases ht
    exact ⟨L, (norflashApiRegister_spec h r).1⟩
  | erase mod_id addr len =>
    obtain ⟨⟨r, s₁⟩, hcall, rfl⟩ := Option.map_eq_some_iff.1 ht
    obtain ⟨L', hres, -⟩ := Sys.erase_sysInv h hc hcall
    exact ⟨L', hres.sysInv h⟩
  | write mod_id addr data =>
    obtain ⟨⟨r, s₁⟩, hcall, rfl⟩ := Option.map_eq_some_iff.1 ht
    obtain ⟨L', hres, -⟩ := Sys.write_sysInv h hcall
    exact ⟨L', hres.sysInv h⟩
  | flush env =>
    obtain ⟨code, rep, s₁, L', hrun, hres⟩ := norflashApiFlush_spec h env
    simp only [step, Sys.flush, hrun, Option.bind_eq_bind, Option.bind_some, Option.some.injEq] at ht
    subst ht
    cases hres with
    | quiet _ _ _ _ hi => exact ⟨L, hi⟩
    | done _ hd => exact ⟨_, hd.inv⟩
    | stopped _ hst => exact ⟨L, hst.inv⟩
  | flushDisable =>
    cases ht
    unfold norflashApiFlushDisable
    split
    · exact ⟨L, h.setCur h.cur_inited (.inr rfl) s.api.cur_mod_id true⟩
    · exact ⟨L, h⟩
  | flushEnable =>
    cases ht
    unfold norflashApiFlushEnable
    split
    · exact ⟨L, h.setCur h.cur_inited (.inr rfl) s.api.cur_mod_id false⟩
    · exact ⟨L, h⟩

/-- Every registered module divides its addresses into the sectors of the flash. -/
def SectorLen (s : ApiInfo W) : Prop := ∀ m, (s.mod_info m).is_inited = true → (s.mod_info m).mod_sector_len = sectorSize

theorem SectorLen.of_reg {s s' : ApiInfo W} (h : SectorLen s) (hr : ∀ m, (s'.mod_info m).reg = (s.mod_info m).reg) :
    SectorLen s' := by
  intro m hi
  have hm := hr m
  simp only [ModuleInfo.reg, ModuleInfo.mk.injEq] at hm
  obtain ⟨h₁, -, -, -, -, -, h₂, -⟩ := hm
  rw [h₂]
  exact h m (h₁ ▸ hi)

/-- The queues of the component lead to the memory of direct execution. -/
structure InStep (I : Mem → Mem → Nat → List SecOp → Prop) (s : Sys W) (L : ModId → List (Slot W)) : Prop where
  sys : SysInv s.api L
  queue : QInv I s.direct (queues s.api.pool L) s.api.hal.flash
  sector_len : SectorLen s.api

theorem alone_of_ownSector {s : ApiInfo W} {L : ModId → List (Slot W)} (h : SysInv s L) {m : ModId} {mod_id sec : Nat}
    (hm : m.val = mod_id) (ho : OwnSector s mod_id sec) : Alone (queues s.pool L) m sec := by
  intro m' hne
  rw [secOps_eq_nil]
  intro n hn
  obtain ⟨i, hi, rfl⟩ := List.mem_map.1 hn
  exact ho m' (fun he => hne (Fin.ext (he.trans hm.symm))) (L m') (pendingSlots_of h m') i hi

theorem ownSector_of_alone {s : ApiInfo W} {L : ModId → List (Slot W)} (h : SysInv s L) {m : ModId} {sec : Nat}
    (ha : Alone (queues s.pool L) m sec) : OwnSector s m.val sec := by
  intro m' hne l hl i hi
  rw [pendingSlots_of h m', Option.mem_some_iff] at hl
  subst hl
  have := secOps_eq_nil.1 (ha m' fun he => hne (congrArg Fin.val he))
  exact this (s.pool.view i) (List.mem_map_of_mem hi)

/-- What a queueing call of the module number `id` does to the queues: nothing
unless it is accepted, and then `d` is the directly executed memory. -/
inductive Called (s s' : Sys W) (L L' : ModId → List (Slot W)) (id : Nat) (d : Mem) (f : ModId → List QNode) :
    Ret → Prop
  | failed {r} : r ≠ .ok → s'.direct = s.direct → queues s'.api.pool L' = queues s.api.pool L →
    Called s s' L L' id d f r
  | accepted {m : ModId} : m.val = id → s'.direct = d →
    queues s'.api.pool L' = Function.update (queues s.api.pool L) m (f m) → Called s s' L L' id d f .ok

section Calls
variable {I : Mem → Mem → Nat → List SecOp → Prop} {C : Nat → List QNode → Prop} {s s' : Sys W}
  {L : ModId → List (Slot W)}

/-- From the outcome of a queueing call to the queues and the direct memory. -/
theorem InStep.of_enq (h : InStep I s L) {L' : ModId → List (Slot W)} {id : Nat} {f : ModId → List QNode} {d : Mem}
    {r : Ret} (hres : EnqResult s.api L id f r s'.api L') (hd : s'.direct = if r = .ok then d else s.direct)
    (hacc : ∀ m : ModId, m.val = id → (s.api.mod_info m).is_inited = true →
      QInv I d (Function.update (queues s.api.pool L) m (f m)) s.api.hal.flash) :
    InStep I s' L' ∧ s'.api.hal = s.api.hal ∧ Called s s' L L' id d f r := by
  obtain ⟨api, direct⟩ := s'
  simp only at hd
  cases hres with
  | refused hne =>
    rw [if_neg hne] at hd
    subst hd
    exact ⟨h, rfl, .failed hne rfl rfl⟩
  | full hi hq =>
    simp only [reduceCtorEq, if_false] at hd
    subst hd
    exact ⟨⟨hi, hq ▸ h.queue, h.sector_len.of_reg (queued_reg _ _)⟩, rfl, .failed (by simp) rfl hq⟩
  | queued hm hin hi hq =>
    simp only [if_true] at hd
    subst hd
    have := hacc _ hm hin
    rw [← hq] at this
    exact ⟨⟨hi, this, h.sector_len.of_reg (queued_reg _ _)⟩, rfl, .accepted hm rfl hq⟩

theorem Sys.erase_inStep (R : SectorRules I C) (h : InStep I s L) {mod_id addr : Nat} (ha : addr % sectorSize = 0)
    (hsafe : EraseSafe s.api mod_id addr) (ho : OwnSector s.api mod_id addr) {r : Ret}
    (ht : s.erase mod_id addr sectorSize = some (r, s')) :
    ∃ L', InStep I s' L' ∧ s'.api.hal = s.api.hal ∧ Called s s' L L' mod_id (NorMem.erase s.direct addr sectorSize)
      (fun m => enqErase addr sectorSize (queues s.api.pool L m)) r := by
  obtain ⟨L', hres, hd⟩ := Sys.erase_sysInv h.sys hsafe ht
  refine ⟨L', h.of_enq hres hd fun m hm _ => ?_⟩
  exact h.queue.enqErase R ha (alone_of_ownSector h.sys hm ho)

theorem Sys.write_inStep (R : SectorRules I C) (h : InStep I s L) {mod_id addr len : Nat} {data : Nat → UInt8}
    (hfit : addr % sectorSize + len ≤ sectorSize) (hclr : ∀ j < len, Clears (s.direct (addr + j)) (data j))
    (ho : OwnSector s.api mod_id (addr / sectorSize * sectorSize))
    (hC : ∀ m : ModId, m.val = mod_id → C (addr / sectorSize * sectorSize) (queues s.api.pool L m)) {r : Ret}
    (ht : s.write mod_id addr data len = some (r, s')) :
    ∃ L', InStep I s' L' ∧ s'.api.hal = s.api.hal ∧ Called s s' L L' mod_id (program s.direct addr len data)
      (fun m => enqWrite (addr / sectorSize * sectorSize) (addr % sectorSize) len data s.api.hal.flash
        (queues s.api.pool L m)) r := by
  obtain ⟨L', hres, hd⟩ := Sys.write_sysInv h.sys ht
  have hle : addr / sectorSize * sectorSize ≤ addr := Nat.div_mul_le_self addr sectorSize
  have hoffs : addr - addr / sectorSize * sectorSize = addr % sectorSize := by
    have := Nat.div_add_mod' addr sectorSize
    omega
  have haddr : addr / sectorSize * sectorSize + addr % sectorSize = addr := Nat.div_add_mod' addr sectorSize
  have hf : ∀ m : ModId, m.val = mod_id → (s.api.mod_info m).is_inited = true →
      sectorOf (s.api.mod_info m) addr = addr / sectorSize * sectorSize := fun m _ hin => by
    rw [sectorOf, h.sector_len m hin]
  have hres' : EnqResult s.api L mod_id (fun m => enqWrite (addr / sectorSize * sectorSize) (addr % sectorSize) len data
      s.api.hal.flash (queues s.api.pool L m)) r s'.api L' := by
    generalize s'.api = a' at hres ⊢
    cases hres with
    | refused hne => exact .refused hne
    | full hi hq => exact .full hi hq
    | queued hm hin hi hq => exact .queued hm hin hi (by rw [hq, hf _ hm hin, hoffs])
  refine ⟨L', h.of_enq hres' hd fun m hm _ => ?_⟩
  have := h.queue.enqWrite R m (addr / sectorSize * sectorSize) (addr % sectorSize) len data (Nat.mul_mod_left _ _)
    hfit (hC m hm) (alone_of_ownSector h.sys hm ho) (by rw [haddr]; exact hclr)
  rwa [haddr] at this

/-- What a flush does to one module's queue: it may execute the oldest
operation, or start it. -/
inductive Flushed (q : List QNode) : List QNode → Prop
  | same : Flushed q q
  | done {l n} : q = l ++ [n] → Flushed q l
  | stopped {l n} : q = l ++ [n] → Flushed q (l ++ [{ n with lock := true }])

theorem Flushed.update {q : ModId → List QNode} {m : ModId} {l : List QNode} (h : Flushed (q m) l) (m' : ModId) :
    Flushed (q m') (Function.update q m l m') := by
  by_cases hm : m' = m
  · subst hm; rwa [Function.update_self]
  · rw [Function.update_of_ne hm]; exact .same

/-- A flush adds nothing to a queue. -/
theorem Flushed.addr {q q' : List QNode} (h : Flushed q q') : ∀ n' ∈ q', ∃ n ∈ q, n.addr = n'.addr := by
  intro n' hn'
  cases h with
  | same => exact ⟨n', hn', rfl⟩
  | done he => exact ⟨n', by simp [he, hn'], rfl⟩
  | @stopped l n he =>
    rcases List.mem_append.1 hn' with h' | h'
    · exact ⟨n', by simp [he, h'], rfl⟩
    · exact ⟨n, by simp [he], by rw [List.mem_singleton.1 h']⟩

theorem Flushed.nil {q : List QNode} (h : Flushed [] q) : q = [] := by
  cases h with
  | same => rfl
  | done he => simp at he
  | stopped he => simp at he

theorem Flushed.secOps {q q' : List QNode} (h : Flushed q q') {s : Nat} (hs : secOps s q = []) : secOps s q' = [] := by
  rw [secOps_eq_nil] at hs ⊢
  intro n' hn' he
  obtain ⟨n, hn, ha⟩ := h.addr n' hn'
  exact hs n hn (ha.trans he)

/-- Executing the oldest operation of a module. -/
theorem InStep.done (R : SectorRules I C) (h : InStep I s L) {m : ModId} {l : List (Slot W)} {c : Slot W}
    {api : ApiInfo W} (hd : FlushDone s.api L m l c api) :
    InStep I ⟨api, s.direct⟩ (Function.update L m l) ∧
      ∀ m', Flushed (queues s.api.pool L m') (queues api.pool (Function.update L m l) m') := by
  have hq : queues s.api.pool L m = l.map s.api.pool.view ++ [s.api.pool.view c] := by
    rw [queues, hd.list, List.map_append, List.map_singleton]
  refine ⟨⟨hd.inv, ?_, h.sector_len.of_reg hd.frame.reg⟩, fun m' => ?_⟩
  · have := h.queue.finish R hq
    rw [hd.queue, hd.flash]
    exact this
  · rw [hd.queue]
    exact Flushed.update (q := queues s.api.pool L) (.done hq) m'

/-- Executing a part of the oldest operation of a module. -/
theorem InStep.stopped (R : SectorRules I C) (h : InStep I s L) {m : ModId} {l : List (Slot W)} {c : Slot W} {mid : Mem}
    {api : ApiInfo W} (hst : FlushStopped s.api L m l c mid api) :
    InStep I ⟨api, s.direct⟩ L ∧ ∀ m', Flushed (queues s.api.pool L m') (queues api.pool L m') := by
  have hq : queues s.api.pool L m = l.map s.api.pool.view ++ [s.api.pool.view c] := by
    rw [queues, hst.list, List.map_append, List.map_singleton]
  refine ⟨⟨hst.inv, ?_, h.sector_len.of_reg hst.frame.reg⟩, fun m' => ?_⟩
  · have := h.queue.stop R hq mid
    rw [hst.queue, hst.flash]
    exact this
  · rw [hst.queue]
    exact Flushed.update (q := queues s.api.pool L) (.stopped hq) m'

theorem Sys.flush_inStep (R : SectorRules I C) (h : InStep I s L) {env : FlushEnv} (ht : s.flush env = some s') :
    ∃ L', InStep I s' L' ∧ s'.direct = s.direct ∧
      ∀ m, Flushed (queues s.api.pool L m) (queues s'.api.pool L' m) := by
  obtain ⟨code, rep, s₁, L', hrun, hres⟩ := norflashApiFlush_spec h.sys env
  simp only [Sys.flush, hrun, Option.bind_eq_bind, Option.bind_some, Option.some.injEq] at ht
  subst ht
  cases hres with
  | quiet _ _ _ _ hi => exact ⟨L, ⟨hi, h.queue, h.sector_len.of_reg fun _ => rfl⟩, rfl, fun _ => .same⟩
  | done hi hd =>
    obtain ⟨hs, hq⟩ := InStep.done R (s := ⟨_, s.direct⟩) ⟨hi, h.queue, h.sector_len.of_reg fun _ => rfl⟩ hd
    exact ⟨_, hs, rfl, hq⟩
  | stopped hi hst =>
    obtain ⟨hs, hq⟩ := InStep.stopped R (s := ⟨_, s.direct⟩) ⟨hi, h.queue, h.sector_len.of_reg fun _ => rfl⟩ hst
    exact ⟨L, hs, rfl, hq⟩

theorem Sys.register_inStep (h : InStep I s L) {r : Registration} (hlen : r.mod_sector_len = sectorSize) :
    InStep I { s with api := (norflashApiRegister r s.api).2 } L ∧
      (norflashApiRegister r s.api).2.pool = s.api.pool ∧ (norflashApiRegister r s.api).2.hal = s.api.hal := by
  obtain ⟨hi, hp, hh, hr⟩ := norflashApiRegister_spec h.sys r
  refine ⟨⟨hi, ?_, fun m hm => ?_⟩, hp, hh⟩
  · simp only [hp, hh]
    exact h.queue
  · rcases hr m hm with hs | hs
    · simp only [hs] at hm ⊢
      exact h.sector_len m hm
    · exact hs.trans hlen

/-- Switching the flush callback. -/
theorem InStep.setAllowed (h : InStep I s L) (b : Bool) : InStep I { s with api := { s.api with allowed_cb := b } } L :=
  ⟨h.sys.setCur h.sys.cur_inited (.inr rfl) s.api.cur_mod_id b, h.queue, h.sector_len⟩

theorem Sys.flushDisable_inStep (h : InStep I s L) : InStep I { s with api := norflashApiFlushDisable s.api } L := by
  unfold norflashApiFlushDisable
  split
  · exact h.setAllowed true
  · exact h

theorem Sys.flushEnable_inStep (h : InStep I s L) : InStep I { s with api := norflashApiFlushEnable s.api } L := by
  unfold norflashApiFlushEnable
  split
  · exact h.setAllowed false
  · exact h

/-- Every call of a run keeps the queues in step with direct execution. -/
theorem step_inStep (R : SectorRules I C) {e : Event} (h : InStep I s L) (hc : QueueCond e s)
    (hC : ∀ mod_id addr data, e = .write mod_id addr data → ∀ m : ModId, m.val = mod_id →
      C (addr / sectorSize * sectorSize) (queues s.api.pool L m)) (ht : step e s = some s') :
    ∃ L', InStep I s' L' := by
  cases e with
  | register r =>
    cases ht
    exact ⟨L, (Sys.register_inStep h hc.1).1⟩
  | erase mod_id addr len =>
    obtain ⟨⟨ha, rfl⟩, hl, ho⟩ := hc
    obtain ⟨⟨r, s₁⟩, hcall, rfl⟩ := Option.map_eq_some_iff.1 ht
    obtain ⟨L', hi, -⟩ := Sys.erase_inStep R h ha hl ho hcall
    exact ⟨L', hi⟩
  | write mod_id addr data =>
    obtain ⟨⟨hfit, hclr⟩, -, ho⟩ := hc
    obtain ⟨⟨r, s₁⟩, hcall, rfl⟩ := Option.map_eq_some_iff.1 ht
    obtain ⟨L', hi, -⟩ := Sys.write_inStep R h hfit hclr ho (hC mod_id addr data rfl) hcall
    exact ⟨L', hi⟩
  | flush env =>
    obtain ⟨L', hi, -⟩ := Sys.flush_inStep R h ht
    exact ⟨L', hi⟩
  | flushDisable =>
    cases ht
    exact ⟨L, Sys.flushDisable_inStep h⟩
  | flushEnable =>
    cases ht
    exact ⟨L, Sys.flushEnable_inStep h⟩

end Calls

theorem inStep_initial {I : Mem → Mem → Nat → List SecOp → Prop} (flash : Mem) (h : ∀ s, I flash flash s []) :
    InStep (W := W) I (initial W flash) fun _ => [] where
  sys := sysInv_initial flash
  queue := .initial h
  sector_len m hi := by simp [initial, norflashApiInit] at hi

/-- A run that is computed step by step. -/
theorem run_of_check (W : Nat) (cond : Event → Sys W → Prop) [∀ e s, Decidable (cond e s)] (flash : Mem)
    (evs : List Event) (good : Sys W → Bool)
    (h : (runAll step (fun e s => decide (cond e s)) evs (initial W flash)).any good = true) :
    ∃ s, Run step cond (· = initial W flash) s evs ∧ good s = true := by
  exact exists_run_of_check step cond _ (some (initial W flash)) evs good (fun _ hs => (Option.some.inj hs).symm) h

end Norflash
