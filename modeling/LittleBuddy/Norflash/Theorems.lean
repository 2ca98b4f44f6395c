import LittleBuddy.Norflash.Runs
import Mathlib
/-!
# Theorems about the deferred flash queue

The lists and pools stay in order, a drained queue leaves what direct execution
would have left, and reads return it at any time: each under a condition on the
calls of the run, and with a run that breaks it without the condition.
-/
open NorMem LinkedPool Runs

namespace Norflash

variable {W : Nat}

/-! ## The lists and the pools -/

/-- The lists `L` are the modules' lists: finite, in used slots, each slot and
each used buffer in one place, and locked at their end only. -/
structure Consistent (s : ApiInfo W) (L : ModId → List (Slot W)) : Prop where
  chain : ∀ m, Chain s.pool.next (s.mod_info m).opera_info (L m)
  once : ((List.finRange moduleIdCount).flatMap L).Nodup
  in_use : ∀ m, ∀ i ∈ L m, (s.pool.opera_info_list i).is_used = true
  slots : (List.finRange (opraListLen W)).countP (fun i => (s.pool.opera_info_list i).is_used) =
    ((List.finRange moduleIdCount).map fun m => (L m).length).sum
  buffers : ∀ b, (s.pool.data_list b).is_used = true ↔ ∃ m, ∃ i ∈ L m, (s.pool.node i).buff = some b
  buffer_once : ∀ m, ∀ i ∈ L m, ∀ m', ∀ j ∈ L m', ∀ b,
    (s.pool.node i).buff = some b → (s.pool.node j).buff = some b → m = m' ∧ i = j
  locked : ∀ m, ∀ i ∈ L m, (s.pool.node i).lock = true → (L m).getLast? = some i

theorem PoolOk.consistent {s : ApiInfo W} {L : ModId → List (Slot W)} (h : PoolOk (heads s) s.pool L) :
    Consistent s L := by
  have honce : ((List.finRange moduleIdCount).flatMap L).Nodup := by
    refine List.nodup_flatMap.2 ⟨fun m _ => h.nodup m, ?_⟩
    refine (List.nodup_finRange _).imp_of_mem fun {m m'} _ _ hne i hi hi' => ?_
    exact h.disjoint m m' hne i hi hi'
  refine ⟨h.chain, honce, fun m i hi => (h.used i).2 ⟨m, hi⟩, ?_, h.data_used, ?_, h.lock_last⟩
  · rw [List.countP_eq_length_filter, ← List.length_flatMap]
    refine List.Perm.length_eq ((List.perm_ext_iff_of_nodup ((List.nodup_finRange _).filter _) honce).2 fun i => ?_)
    simp [h.used]
  · intro m i hi m' j hj b hb hb'
    have hij := h.buff_inj m i hi m' j hj b hb hb'
    exact ⟨h.owner hi (hij ▸ hj), hij⟩

theorem sysInv_of_run {flash : Mem} {s : Sys W} {evs : List Event}
    (h : Run step ListCond (· = initial W flash) s evs) : ∃ L, SysInv s.api L := by
  refine h.inv (fun s => ∃ L, SysInv s.api L) ?_ fun e s s' hi hc ht => ?_
  · rintro _ rfl
    exact ⟨_, sysInv_initial flash⟩
  · obtain ⟨L, hL⟩ := hi
    exact step_sysInv hL hc ht

/-- A module of eight sectors. -/
def eightSectors (mod_id base : Nat) : Registration :=
  ⟨mod_id, 0, base, 0x8000, 0x8000, 0x1000, 0x100, 0x1000, false⟩

def flushOk : Event := .flush ⟨true, .ok⟩
def flushSuspended (mid : Mem) : Event := .flush ⟨true, .suspended mid⟩

/-- The invariant `I` of the queues, in every run whose steps meet a condition
that implies `QueueCond` and what `I` asks of a write. -/
theorem inStep_of_run {I : Mem → Mem → Nat → List SecOp → Prop} {C : Nat → List QNode → Prop} (R : SectorRules I C)
    {cond : Event → Sys W → Prop} {flash : Mem} (h0 : ∀ s, I flash flash s []) (hq : ∀ e s, cond e s → QueueCond e s)
    (hC : ∀ (s : Sys W) (L : ModId → List (Slot W)), SysInv s.api L → ∀ mod_id addr data, cond (.write mod_id addr data) s →
      ∀ m : ModId, m.val = mod_id → C (addr / sectorSize * sectorSize) (queues s.api.pool L m))
    {s : Sys W} {evs : List Event} (h : Run step cond (· = initial W flash) s evs) : ∃ L, InStep I s L := by
  refine h.inv (fun s => ∃ L, InStep I s L) ?_ fun e s s' hi hc ht => ?_
  · rintro _ rfl
    exact ⟨_, inStep_initial flash h0⟩
  · obtain ⟨L, hL⟩ := hi
    refine step_inStep R hL (hq e s hc) (fun mod_id addr data he m hm => ?_) ht
    subst he
    exact hC s L hL.sys mod_id addr data hc m hm

theorem InStep.drained {s : Sys W} {L : ModId → List (Slot W)} (h : InStep SectorInv s L)
    (hdrained : ∀ m, (s.api.mod_info m).opera_info = none) : s.api.hal.flash = s.direct := by
  refine h.queue.drained fun m => ?_
  have hc : Chain s.api.pool.next none (L m) := hdrained m ▸ h.sys.pool.chain m
  cases hl : L m with
  | nil => simp [queues, hl]
  | cons i l =>
    rw [hl] at hc
    cases hc.1

/-- In a run that meets `QueueCond`, a drained queue leaves on the flash what
direct execution would have. -/
theorem deferred_refines_direct {flash : Mem} {s : Sys W} {evs : List Event}
    (h : Run step QueueCond (· = initial W flash) s evs) (hdrained : ∀ m, (s.api.mod_info m).opera_info = none) :
    s.api.hal.flash = s.direct := by
  obtain ⟨L, hL⟩ := inStep_of_run sectorInv_rules (.initial flash) (fun _ _ hc => hc) (fun _ _ _ _ _ _ _ _ _ => trivial) h
  exact hL.drained hdrained

theorem deferred_refines_direct_example : ∃ s : Sys 1, s.api.hal.flash = s.direct ∧ s.direct 0x1001 = 2 := by
  obtain ⟨s, hr, hg⟩ := run_of_check 1 QueueCond (fun _ => 0)
    [.register (eightSectors 0 0), .erase 0 0x1000 0x1000, .write 0 0x1000 [1], flushSuspended fun _ => 7,
      .write 0 0x1001 [2], flushOk, flushOk]
    (fun s => decide ((∀ m, (s.api.mod_info m).opera_info = none) ∧ s.direct 0x1001 = 2)) (by decide +kernel)
  obtain ⟨hnone, hd⟩ := of_decide_eq_true hg
  exact ⟨s, deferred_refines_direct hr hnone, hd⟩

/-- Without `QueueCond` an accepted erase can be lost: its node is freed and
stays in the list, and the next erase of another module takes the node. -/
theorem deferred_erase_lost : ¬ ∀ (W : Nat) (flash : Mem) (s : Sys W) (evs : List Event),
    Run step SectorCall (· = initial W flash) s evs → (∀ m, (s.api.mod_info m).opera_info = none) →
      ∀ m, (s.api.mod_info m).is_inited = true →
        ∀ a, InRange (s.api.mod_info m).mod_base_addr (s.api.mod_info m).mod_len a →
          s.api.hal.flash a = s.direct a := by
  intro hclaim
  obtain ⟨s, hr, hg⟩ := run_of_check 1 SectorCall (fun _ => 0)
    [.register (eightSectors 0 0), .register (eightSectors 1 0x10000), .erase 0 0 0x1000,
      .erase 0 0x1000 0x1000, .erase 0 0x2000 0x1000, .write 0 0x2000 [1], .erase 0 0x3000 0x1000, flushOk,
      .erase 0 0x2000 0x1000, .erase 1 0x10000 0x1000, flushOk, flushOk, flushOk, flushOk, flushOk]
    (fun s => decide ((∀ m, (s.api.mod_info m).opera_info = none) ∧ (s.api.mod_info 0).is_inited = true ∧
      InRange (s.api.mod_info 0).mod_base_addr (s.api.mod_info 0).mod_len 0x1000 ∧
      s.api.hal.flash 0x1000 ≠ s.direct 0x1000)) (by decide +kernel)
  obtain ⟨hnone, hin, ha, hne⟩ := of_decide_eq_true hg
  exact hne (hclaim 1 _ s _ hr hnone 0 hin 0x1000 ha)

/-! ## Reading -/

theorem shows_of_run {flash : Mem} {s : Sys W} {evs : List Event}
    (h : Run step ReadCond (· = initial W flash) s evs) : ∃ L, InStep SectorShows s L := by
  refine inStep_of_run sectorShows_rules (.initial flash) (fun _ _ hc => hc.1) ?_ h
  intro s L hL mod_id addr data hc m hm
  exact hc.2 m hm (L m) (pendingSlots_of hL m)

/-- A read inside a sector that no other module has operations pending on. -/
theorem InStep.read {s : Sys W} {L : ModId → List (Slot W)} (h : InStep SectorShows s L) (mod_id addr len : Nat)
    (hlen : addr % sectorSize + len ≤ sectorSize) (ho : OwnSector s.api mod_id (addr / sectorSize * sectorSize)) :
    ∃ r bytes, norflashApiRead mod_id addr len s.api = some (r, bytes) ∧
      (r = .ok → bytes = (List.range len).map fun j => s.direct (addr + j)) := by
  obtain ⟨r, bytes, hrun, hok⟩ := norflashApiRead_spec h.sys mod_id addr len
  refine ⟨r, bytes, hrun, fun hr => ?_⟩
  obtain ⟨m, hm, hin, hb⟩ := hok hr
  have hle : addr / sectorSize * sectorSize ≤ addr := Nat.div_mul_le_self addr sectorSize
  have hoffs : addr - addr / sectorSize * sectorSize = addr % sectorSize := by
    have := Nat.div_add_mod' addr sectorSize
    omega
  rw [hb (addr / sectorSize * sectorSize) (by rw [sectorOf, h.sector_len m hin])]
  refine List.map_congr_left fun j hj => ?_
  have hj' : j < len := List.mem_range.1 hj
  have := (h.queue.sector _ (Nat.mul_mod_left _ _) m (alone_of_ownSector h.sys hm ho)).shows_content
    (addr - addr / sectorSize * sectorSize + j) (by omega)
  rw [this]
  congr 1
  omega

end Norflash
