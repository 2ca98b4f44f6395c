import LittleBuddy.NvRecord.Model
import LittleBuddy.Norflash.Owner
import Mathlib
/-!
# The record's sectors in the flash queue

What the calls of the NV record do to its two sectors: to the directly executed
memory, and to the operations that are still pending on them. Other modules do
neither, and any flush may execute what is pending.
-/
open NorMem Norflash

namespace NvRecord

variable {W : Nat} {cfg : Config} {dev dev' : Sys W} {L L' : ModId → List (Slot W)}

theorem nvModule_lt : nvModule < moduleIdCount := by decide

abbrev nvMod : ModId := ⟨nvModule, nvModule_lt⟩

/-- The pending operations of the record. -/
def nvQueue (dev : Sys W) (L : ModId → List (Slot W)) : List QNode := queues dev.api.pool L nvMod

/-- The flash queue is in step, and nobody else has operations pending on the two sectors. -/
structure DevInv (cfg : Config) (dev : Sys W) (L : ModId → List (Slot W)) : Prop where
  in_step : InStep SectorInv dev L
  alone : ∀ c, Alone (queues dev.api.pool L) nvMod (cfg.addr c)

/-- At most the sector at `a` has operations pending. -/
def OnlySec (a : Nat) (q : List QNode) : Prop := ∀ s, s ≠ a → secOps s q = []

/-! ## Addresses -/

theorem Config.addr_mod (cfg : Config) (c : Copy) : cfg.addr c % sectorSize = 0 := by
  have := cfg.aligned
  cases c
  · exact this
  · rw [Config.addr, Nat.add_mod_right]
    exact this

theorem Config.main_ne_bak (cfg : Config) : cfg.addr .main ≠ cfg.addr .bak := by
  simp [Config.addr]

/-- The sectors do not overlap. -/
theorem Config.apart (cfg : Config) {a j : Nat} (ha : a % sectorSize = 0) {c : Copy} (hne : cfg.addr c ≠ a)
    (hj : j < extensionSize) {o len : Nat} (hlen : o + len ≤ extensionSize) :
    ¬ InRange (a + o) len (cfg.addr c + j) := by
  exact sector_apart (cfg.addr_mod c) ha hne hj hlen

/-! ## The record owns its sectors -/

theorem devInv_iff : DevInv cfg dev L ↔ Owned nvMod (Set.range cfg.addr) dev L :=
  ⟨fun h => ⟨h.in_step, Set.forall_mem_range.2 h.alone⟩, fun h => ⟨h.in_step, Set.forall_mem_range.1 h.alone⟩⟩

theorem DevInv.owned (h : DevInv cfg dev L) : Owned nvMod (Set.range cfg.addr) dev L := devInv_iff.1 h

theorem DevInv.flash_eq (h : DevInv cfg dev L) {c : Copy} (hc : secOps (cfg.addr c) (nvQueue dev L) = []) {j : Nat}
    (hj : j < extensionSize) : dev.api.hal.flash (cfg.addr c + j) = dev.direct (cfg.addr c + j) :=
  h.owned.flash_eq ⟨c, rfl⟩ (cfg.addr_mod c) hc hj

/-- The record erases a sector only when nothing of it is pending. -/
theorem DevInv.erase (h : DevInv cfg dev L) (c : Copy) (hq : nvQueue dev L = []) {r : Ret}
    (ht : dev.erase nvModule (cfg.addr c) extensionSize = some (r, dev')) :
    ∃ L', DevInv cfg dev' L' ∧ (r ≠ .ok ∧ dev'.direct = dev.direct ∧ nvQueue dev' L' = [] ∨
      r = .ok ∧ dev'.direct = NorMem.erase dev.direct (cfg.addr c) extensionSize ∧
        OnlySec (cfg.addr c) (nvQueue dev' L')) := by
  obtain ⟨L', ho, hres⟩ := h.owned.erase ⟨c, rfl⟩ (cfg.addr_mod c) hq ht
  exact ⟨L', devInv_iff.2 ho, hres⟩

/-- A write of the record inside a sector. -/
theorem DevInv.write (h : DevInv cfg dev L) (c : Copy) {n len : Nat} (hn : n < extensionSize) (hlen : n + len ≤ extensionSize)
    (hq : OnlySec (cfg.addr c) (nvQueue dev L)) {data : Nat → UInt8}
    (hclr : ∀ j < len, Clears (dev.direct (cfg.addr c + n + j)) (data j)) {r : Ret}
    (ht : dev.write nvModule (cfg.addr c + n) data len = some (r, dev')) :
    ∃ L', DevInv cfg dev' L' ∧ (r ≠ .ok ∧ dev'.direct = dev.direct ∧ nvQueue dev' L' = nvQueue dev L ∨
      r = .ok ∧ dev'.direct = program dev.direct (cfg.addr c + n) len data ∧
        OnlySec (cfg.addr c) (nvQueue dev' L') ∧ nvQueue dev' L' ≠ []) := by
  obtain ⟨L', ho, hres⟩ := h.owned.write ⟨c, rfl⟩ (cfg.addr_mod c) hn hlen hq hclr ht
  exact ⟨L', devInv_iff.2 ho, hres⟩

/-- Reading from a sector that has nothing pending. -/
theorem DevInv.read (h : DevInv cfg dev L) {c : Copy} (hq : secOps (cfg.addr c) (nvQueue dev L) = []) {n len : Nat}
    (hn : n < extensionSize) (hlen : n + len ≤ extensionSize) {data : List UInt8}
    (ht : norflashApiRead nvModule (cfg.addr c + n) len dev.api = some (.ok, data)) :
    ∀ j < len, bufferOf data j = dev.direct (cfg.addr c + n + j) :=
  h.owned.read ⟨c, rfl⟩ (cfg.addr_mod c) hq hn hlen ht

theorem DevInv.count (h : DevInv cfg dev L) {n : Nat}
    (ht : norflashApiGetUsedBufferCount nvMod .all dev.api = some n) : n = 0 ↔ nvQueue dev L = [] :=
  h.owned.count ht

/-- A flush, whoever calls it. -/
theorem DevInv.flush (h : DevInv cfg dev L) {env : FlushEnv} (ht : dev.flush env = some dev') :
    ∃ L', DevInv cfg dev' L' ∧ dev'.direct = dev.direct ∧ Flushed (nvQueue dev L) (nvQueue dev' L') := by
  obtain ⟨L', ho, hd, hf⟩ := h.owned.flush ht
  exact ⟨L', devInv_iff.2 ho, hd, hf⟩

theorem Config.foreign (cfg : Config) {e : Norflash.Event} (h : cfg.Foreign e) :
    Norflash.Foreign nvMod (Set.range cfg.addr) e := by
  cases e with
  | erase mod_id a len => exact ⟨h.1, fun ⟨c, hc⟩ => h.2 c hc.symm⟩
  | write mod_id a data => exact ⟨h.1, fun ⟨c, hc⟩ => h.2 c hc.symm⟩
  | _ => trivial

/-- Any event of another module. -/
theorem DevInv.other (h : DevInv cfg dev L) {e : Norflash.Event} (hfo : cfg.Foreign e) (hc : QueueCond e dev)
    (ht : Norflash.step e dev = some dev') :
    ∃ L', DevInv cfg dev' L' ∧ (∀ c, ∀ j < extensionSize, dev'.direct (cfg.addr c + j) = dev.direct (cfg.addr c + j)) ∧
      Flushed (nvQueue dev L) (nvQueue dev' L') := by
  obtain ⟨L', ho, hd, hf⟩ := h.owned.other (Set.forall_mem_range.2 cfg.addr_mod) (cfg.foreign hfo) hc ht
  exact ⟨L', devInv_iff.2 ho, fun c => hd _ ⟨c, rfl⟩, hf⟩

end NvRecord
