import LittleBuddy.Norflash.Runs
/-!
# A module with sectors of its own

What the calls of one module do to the sectors that only it writes to: to the
directly executed memory, and to the operations that are pending on them. Other
modules do neither, and any flush may execute what is pending.
-/
open NorMem

namespace Norflash

variable {W : Nat} {m : ModId} {own : Set Nat} {dev dev' : Sys W} {L L' : ModId → List (Slot W)} {a : Nat}

/-- The pending operations of the module. -/
def queueOf (m : ModId) (dev : Sys W) (L : ModId → List (Slot W)) : List QNode := queues dev.api.pool L m

/-- The flash queue is in step, and no other module has operations pending on the sectors. -/
structure Owned (m : ModId) (own : Set Nat) (dev : Sys W) (L : ModId → List (Slot W)) : Prop where
  in_step : InStep SectorInv dev L
  alone : ∀ a ∈ own, Alone (queues dev.api.pool L) m a

/-- At most the sector at `a` has operations pending. -/
def OnlyAt (a : Nat) (q : List QNode) : Prop := ∀ s, s ≠ a → secOps s q = []

theorem OnlyAt.nil : OnlyAt a [] := fun _ _ => secOps_nil ..

theorem OnlyAt.flushed {q q' : List QNode} (h : OnlyAt a q) (hf : Flushed q q') : OnlyAt a q' :=
  fun s hs => hf.secOps (h s hs)

theorem sector_of_add (ha : a % sectorSize = 0) {n : Nat} (hn : n < sectorSize) :
    (a + n) / sectorSize * sectorSize = a ∧ (a + n) % sectorSize = n := by
  simp only [sectorSize] at *
  omega

/-- A queue of one module that keeps off the sector leaves it to its owner. -/
theorem Alone.update {q : ModId → List QNode} {m' : ModId} {l : List QNode} (h : Alone q m a)
    (hl : m' ≠ m → secOps a l = []) : Alone (Function.update q m' l) m a := by
  intro k hk
  by_cases hm : k = m'
  · subst hm
    rw [Function.update_self]
    exact hl hk
  · rw [Function.update_of_ne hm]
    exact h k hk

/-! ## Calls of the owner -/

namespace Owned

theorem flash_eq (h : Owned m own dev L) (ha : a ∈ own) (hal : a % sectorSize = 0)
    (hc : secOps a (queueOf m dev L) = []) {j : Nat} (hj : j < sectorSize) :
    dev.api.hal.flash (a + j) = dev.direct (a + j) := by
  have := (h.in_step.queue.sector _ hal m (h.alone a ha)).content j hj
  have hops : secOps a (queues dev.api.pool L m) = [] := hc
  rw [hops, replay_nil] at this
  exact this.symm

theorem ownSector (h : Owned m own dev L) (ha : a ∈ own) : OwnSector dev.api m.val a :=
  ownSector_of_alone h.in_step.sys (h.alone a ha)

/-- A queueing call of the owner. -/
theorem of_called (h : Owned m own dev L) {I : InStep SectorInv dev' L'} {d : Mem} {f : ModId → List QNode} {r : Ret}
    (hc : Called dev dev' L L' m.val d f r) :
    Owned m own dev' L' ∧ (r ≠ .ok ∧ dev'.direct = dev.direct ∧ queueOf m dev' L' = queueOf m dev L ∨
      r = .ok ∧ dev'.direct = d ∧ queueOf m dev' L' = f m) := by
  cases hc with
  | failed hne hd hq => exact ⟨⟨I, by rw [hq]; exact h.alone⟩, .inl ⟨hne, hd, by rw [queueOf, hq, queueOf]⟩⟩
  | @accepted m' hm hd hq =>
    have hm' : m' = m := Fin.ext hm
    subst hm'
    refine ⟨⟨I, fun a ha => ?_⟩, .inr ⟨rfl, hd, by rw [queueOf, hq, Function.update_self]⟩⟩
    rw [hq]
    exact (h.alone a ha).update fun hne => absurd rfl hne

/-- A sector is erased when nothing of the module is pending. -/
theorem erase (h : Owned m own dev L) (ha : a ∈ own) (hal : a % sectorSize = 0) (hq : queueOf m dev L = []) {r : Ret}
    (ht : dev.erase m.val a sectorSize = some (r, dev')) :
    ∃ L', Owned m own dev' L' ∧ (r ≠ .ok ∧ dev'.direct = dev.direct ∧ queueOf m dev' L' = [] ∨
      r = .ok ∧ dev'.direct = NorMem.erase dev.direct a sectorSize ∧ OnlyAt a (queueOf m dev' L')) := by
  have hsafe : EraseSafe dev.api m.val a := by
    intro m' hm l hl
    have hm' : m' = m := Fin.ext hm
    subst hm'
    have hnil : L m' = [] := by simpa [queueOf, queues] using hq
    rw [pendingSlots_of h.in_step.sys, Option.mem_some_iff, hnil] at hl
    subst hl
    simp [EraseClean, NoPair]
  obtain ⟨L', hi, -, hc⟩ := Sys.erase_inStep sectorInv_rules h.in_step hal hsafe (h.ownSector ha) ht
  obtain ⟨hd, hres⟩ := h.of_called (I := hi) hc
  refine ⟨L', hd, hres.imp (fun hf => ⟨hf.1, hf.2.1, hf.2.2.trans hq⟩) fun hok => ⟨hok.1, hok.2.1, fun s hs => ?_⟩⟩
  have hnil : queues dev.api.pool L m = [] := hq
  rw [hok.2.2, enqErase_other hs, hnil, secOps_nil]

/-- A write inside a sector. -/
theorem write (h : Owned m own dev L) (ha : a ∈ own) (hal : a % sectorSize = 0) {n len : Nat} (hn : n < sectorSize)
    (hlen : n + len ≤ sectorSize) (hq : OnlyAt a (queueOf m dev L)) {data : Nat → UInt8}
    (hclr : ∀ j < len, Clears (dev.direct (a + n + j)) (data j)) {r : Ret}
    (ht : dev.write m.val (a + n) data len = some (r, dev')) :
    ∃ L', Owned m own dev' L' ∧ (r ≠ .ok ∧ dev'.direct = dev.direct ∧ queueOf m dev' L' = queueOf m dev L ∨
      r = .ok ∧ dev'.direct = program dev.direct (a + n) len data ∧
        OnlyAt a (queueOf m dev' L') ∧ queueOf m dev' L' ≠ []) := by
  obtain ⟨hs, ho⟩ := sector_of_add hal hn
  obtain ⟨L', hi, -, hc⟩ := Sys.write_inStep sectorInv_rules h.in_step (by rw [ho]; exact hlen) hclr
    (by rw [hs]; exact h.ownSector ha) (fun _ _ => trivial) ht
  obtain ⟨hd, hres⟩ := h.of_called (I := hi) hc
  refine ⟨L', hd, hres.imp_right fun hok => ?_⟩
  have hw := enqWrite_cases ((a + n) / sectorSize * sectorSize) ((a + n) % sectorSize) len data
    dev.api.hal.flash (h.in_step.queue.lock m)
  rw [← hok.2.2, hs] at hw
  refine ⟨hok.1, hok.2.1, fun s hs => ?_, fun hnil => hw.pending (by rw [hnil, secOps_nil])⟩
  rw [hw.other hs]
  exact hq s hs

/-- Reading from a sector that has nothing pending. -/
theorem read (h : Owned m own dev L) (ha : a ∈ own) (hal : a % sectorSize = 0) (hq : secOps a (queueOf m dev L) = [])
    {n len : Nat} (hn : n < sectorSize) (hlen : n + len ≤ sectorSize) {data : List UInt8}
    (ht : norflashApiRead m.val (a + n) len dev.api = some (.ok, data)) :
    ∀ j < len, bufferOf data j = dev.direct (a + n + j) := by
  obtain ⟨r, bytes, hrun, hok⟩ := norflashApiRead_spec h.in_step.sys m.val (a + n) len
  rw [ht] at hrun
  cases hrun
  obtain ⟨m', hm, hin, hb⟩ := hok rfl
  have hm' : m' = m := Fin.ext hm
  subst hm'
  intro j hj
  have hsec : sectorOf (dev.api.mod_info m') (a + n) = a := by
    rw [sectorOf, h.in_step.sector_len m' hin]
    exact (sector_of_add hal hn).1
  have hops : secOps a (queues dev.api.pool L m') = [] := hq
  rw [hb _ hsec, hops, bufferOf, List.getD_eq_getElem?_getD, List.getElem?_map, List.getElem?_range hj]
  simp only [Option.map_some, Option.getD_some, newest]
  rw [Nat.add_sub_cancel_left, ← Nat.add_assoc]
  have := h.flash_eq ha hal hq (j := n + j) (by omega)
  rwa [← Nat.add_assoc] at this

theorem count (h : Owned m own dev L) {n : Nat} (ht : norflashApiGetUsedBufferCount m .all dev.api = some n) :
    n = 0 ↔ queueOf m dev L = [] := by
  unfold norflashApiGetUsedBufferCount at ht
  split at ht
  · have hcount := fun c => getCount_spec (h.in_step.sys.pool.chain m) (h.in_step.sys.pool.length_le m) c
    simp only [CountType.hasW, CountType.hasE, getWCount, getECount] at ht
    have hheads : heads dev.api m = (dev.api.mod_info m).opera_info := rfl
    simp only [← hheads, hcount] at ht
    simp only [bne, Option.bind_eq_bind, Option.bind_some] at ht
    have hsum : (L m).countP (fun i => (dev.api.pool.node i).type == .writting) +
        (L m).countP (fun i => (dev.api.pool.node i).type == .erasing) = n := by simpa using ht
    have hlen := List.length_eq_countP_add_countP (fun i => (dev.api.pool.node i).type == .writting) (l := L m)
    have hother : (L m).countP (fun i => (dev.api.pool.node i).type == .erasing) =
        (L m).countP (fun i => decide ¬((dev.api.pool.node i).type == .writting) = true) := by
      refine List.countP_congr fun i _ => ?_
      cases (dev.api.pool.node i).type <;> simp
    have : n = (L m).length := by omega
    rw [this, List.length_eq_zero_iff, queueOf, queues, List.map_eq_nil_iff]
  · cases ht

/-- A flush, whoever calls it. -/
theorem flush (h : Owned m own dev L) {env : FlushEnv} (ht : dev.flush env = some dev') :
    ∃ L', Owned m own dev' L' ∧ dev'.direct = dev.direct ∧ Flushed (queueOf m dev L) (queueOf m dev' L') := by
  obtain ⟨L', hi, hd, hf⟩ := Sys.flush_inStep sectorInv_rules h.in_step ht
  exact ⟨L', ⟨hi, fun a ha m' hm => (hf m').secOps (h.alone a ha m' hm)⟩, hd, hf m⟩

/-! ## Other modules -/

/-- A call of another module changes neither the sectors nor their queue. -/
theorem foreign (h : Owned m own dev L) {id b : Nat} (hid : id ≠ m.val) (hb : b ∉ own)
    {d : Mem} {f : ModId → List QNode} {r : Ret} {I : InStep SectorInv dev' L'}
    (hc : Called dev dev' L L' id d f r) (hf : ∀ m s, s ≠ b → secOps s (f m) = secOps s (queues dev.api.pool L m))
    (hd : ∀ a ∈ own, ∀ j < sectorSize, d (a + j) = dev.direct (a + j)) :
    Owned m own dev' L' ∧ (∀ a ∈ own, ∀ j < sectorSize, dev'.direct (a + j) = dev.direct (a + j)) ∧
      queueOf m dev' L' = queueOf m dev L := by
  cases hc with
  | failed _ hd' hq => exact ⟨⟨I, by rw [hq]; exact h.alone⟩, fun _ _ _ _ => by rw [hd'], by rw [queueOf, hq, queueOf]⟩
  | @accepted m' hm hd' hq =>
    have hne : m' ≠ m := fun he => hid (by rw [← hm, he])
    refine ⟨⟨I, fun a ha => ?_⟩, fun a ha j hj => by rw [hd']; exact hd a ha j hj, ?_⟩
    · rw [hq]
      exact (h.alone a ha).update fun hm' => (hf m' _ fun he => hb (he ▸ ha)).trans (h.alone a ha m' hm')
    · rw [queueOf, hq, Function.update_of_ne hne.symm, queueOf]

/-- A call that changes no list. -/
theorem of_pool (h : Owned m own dev L) (hi : InStep SectorInv dev' L) (hp : dev'.api.pool = dev.api.pool)
    (hd : dev'.direct = dev.direct) :
    ∃ L', Owned m own dev' L' ∧ (∀ a ∈ own, ∀ j < sectorSize, dev'.direct (a + j) = dev.direct (a + j)) ∧
      Flushed (queueOf m dev L) (queueOf m dev' L') := by
  have hq : queues dev'.api.pool L = queues dev.api.pool L := by rw [hp]
  refine ⟨L, ⟨hi, fun a ha => ?_⟩, fun _ _ _ _ => by rw [hd], ?_⟩
  · rw [hq]
    exact h.alone a ha
  · rw [queueOf, queueOf, hq]
    exact .same

end Owned

/-- An event of a module other than `m`, off the sectors that `m` owns. -/
def Foreign (m : ModId) (own : Set Nat) : Event → Prop
  | .erase mod_id a _ => mod_id ≠ m.val ∧ a ∉ own
  | .write mod_id a _ => mod_id ≠ m.val ∧ a / sectorSize * sectorSize ∉ own
  | _ => True

instance [DecidablePred (· ∈ own)] (e : Event) : Decidable (Foreign m own e) :=
  match e with
  | .erase .. | .write .. => inferInstanceAs (Decidable (_ ∧ _))
  | .register _ | .flush _ | .flushDisable | .flushEnable => inferInstanceAs (Decidable True)

/-- Any event of another module. -/
theorem Owned.other (h : Owned m own dev L) (hown : ∀ a ∈ own, a % sectorSize = 0) {e : Event} (hfo : Foreign m own e)
    (hc : QueueCond e dev) (ht : step e dev = some dev') :
    ∃ L', Owned m own dev' L' ∧ (∀ a ∈ own, ∀ j < sectorSize, dev'.direct (a + j) = dev.direct (a + j)) ∧
      Flushed (queueOf m dev L) (queueOf m dev' L') := by
  have hapart : ∀ b, b % sectorSize = 0 → b ∉ own → ∀ a ∈ own, ∀ j < sectorSize, ∀ o len, o + len ≤ sectorSize →
      ¬ InRange (b + o) len (a + j) := fun b hb hne a ha j hj o len hlen =>
    sector_apart (hown a ha) hb (fun he => hne (he ▸ ha)) hj hlen
  cases e with
  | register r =>
    cases ht
    obtain ⟨hi, hp, -⟩ := Sys.register_inStep h.in_step hc.1
    exact h.of_pool hi hp rfl
  | erase mod_id b len =>
    obtain ⟨⟨hb, rfl⟩, hl, ho⟩ := hc
    obtain ⟨⟨r, s₁⟩, hcall, rfl⟩ := Option.map_eq_some_iff.1 ht
    obtain ⟨L', hi, -, hcd⟩ := Sys.erase_inStep sectorInv_rules h.in_step hb hl ho hcall
    obtain ⟨hd, hdir, hq⟩ := h.foreign hfo.1 hfo.2 (I := hi) hcd (fun m s hs => enqErase_other hs _ _)
      fun a ha j hj => erase_other (hapart b hb hfo.2 a ha j hj 0 sectorSize (Nat.le_of_eq (Nat.zero_add _)))
    exact ⟨L', hd, hdir, hq ▸ .same⟩
  | write mod_id b data =>
    obtain ⟨⟨hfit, hclr⟩, -, ho⟩ := hc
    obtain ⟨⟨r, s₁⟩, hcall, rfl⟩ := Option.map_eq_some_iff.1 ht
    obtain ⟨L', hi, -, hcd⟩ := Sys.write_inStep sectorInv_rules h.in_step hfit hclr ho (fun _ _ => trivial) hcall
    have haddr : b / sectorSize * sectorSize + b % sectorSize = b := Nat.div_add_mod' b sectorSize
    obtain ⟨hd, hdir, hq⟩ := h.foreign hfo.1 hfo.2 (I := hi) hcd
      (fun m s hs => (enqWrite_cases _ _ _ _ _ (h.in_step.queue.lock m)).other hs)
      fun a ha j hj => by
        have := hapart _ (Nat.mul_mod_left (b / sectorSize) sectorSize) hfo.2 a ha j hj _ _ hfit
        rw [haddr] at this
        exact program_other this
    exact ⟨L', hd, hdir, hq ▸ .same⟩
  | flush env =>
    obtain ⟨L', hd, hdir, hf⟩ := h.flush ht
    exact ⟨L', hd, fun _ _ _ _ => by rw [hdir], hf⟩
  | flushDisable =>
    cases ht
    have hq : (norflashApiFlushDisable dev.api).pool = dev.api.pool := by unfold norflashApiFlushDisable; split <;> rfl
    exact h.of_pool (Sys.flushDisable_inStep h.in_step) hq rfl
  | flushEnable =>
    cases ht
    have hq : (norflashApiFlushEnable dev.api).pool = dev.api.pool := by unfold norflashApiFlushEnable; split <;> rfl
    exact h.of_pool (Sys.flushEnable_inStep h.in_step) hq rfl

end Norflash
