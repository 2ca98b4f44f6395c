import LittleBuddy.Norflash.Theorems
/-!
# What an erase covers

A run here also carries, for every byte that an accepted erase has covered, the
value of the last accepted write to it since. A block erase that is queued is
one node at the block's first sector, so neither the reads of the other sectors
nor the operations queued for them take notice of it.
-/
open NorMem LinkedPool Runs

namespace Norflash

variable {W : Nat}

/-! ## The last accepted write -/

/-- The component, and for the bytes an accepted erase has covered what was last
written to them since. -/
structure Cover (W : Nat) where
  sys : Sys W
  last : Nat → Option (Option UInt8)

namespace Cover

def initial (W : Nat) (flash : Mem) : Cover W := ⟨Norflash.initial W flash, fun _ => none⟩

def eraseMarks (last : Nat → Option (Option UInt8)) (addr len : Nat) : Nat → Option (Option UInt8) :=
  fun a => if InRange addr len a then some none else last a

def writeMarks (last : Nat → Option (Option UInt8)) (addr : Nat) (data : List UInt8) : Nat → Option (Option UInt8) :=
  fun a => if InRange addr data.length a then (last a).map fun _ => some (bufferOf data (a - addr)) else last a

/-- One call, with the marks of an accepted one. -/
def step : Event → Cover W → Option (Cover W)
  | .erase mod_id addr len, c => do
    let (r, sys) ← c.sys.erase mod_id addr len
    some ⟨sys, if r = .ok then eraseMarks c.last addr len else c.last⟩
  | .write mod_id addr data, c => do
    let (r, sys) ← c.sys.write mod_id addr (bufferOf data) data.length
    some ⟨sys, if r = .ok then writeMarks c.last addr data else c.last⟩
  | e, c => (Norflash.step e c.sys).map fun sys => { c with sys }

end Cover

/-- Every covered byte is what was last written to it or erased: on the flash
when nothing is pending, and in every read that `reads` speaks of. -/
structure Covered (reads : ApiInfo W → Nat → Nat → Nat → Prop) (c : Cover W) : Prop where
  drained : (∀ m, (c.sys.api.mod_info m).opera_info = none) →
    ∀ a w, c.last a = some w → c.sys.api.hal.flash a = w.getD 0xff
  read : ∀ mod_id addr len, reads c.sys.api mod_id addr len →
    ∃ r bytes, norflashApiRead mod_id addr len c.sys.api = some (r, bytes) ∧
      (r = .ok → ∀ j < len, ∀ w, c.last (addr + j) = some w → bytes[j]? = some (w.getD 0xff))

/-- The read stays inside a sector that no other module has operations pending on. -/
def ReadWithin (s : ApiInfo W) (mod_id addr len : Nat) : Prop :=
  addr % sectorSize + len ≤ sectorSize ∧ OwnSector s mod_id (addr / sectorSize * sectorSize)

/-! ## The marks and the directly executed memory -/

/-- A covered byte of the directly executed memory is what its mark says. -/
def Marked (c : Cover W) : Prop := ∀ a w, c.last a = some w → c.sys.direct a = w.getD 0xff

theorem Marked.erase {last : Nat → Option (Option UInt8)} {d : Mem} (h : ∀ a w, last a = some w → d a = w.getD 0xff)
    (addr len : Nat) : ∀ a w, Cover.eraseMarks last addr len a = some w → NorMem.erase d addr len a = w.getD 0xff := by
  intro a w hw
  unfold Cover.eraseMarks at hw
  split at hw
  · rename_i hin
    cases hw
    exact erase_of hin
  · rename_i hin
    rw [erase_other hin]
    exact h a w hw

theorem Marked.write {last : Nat → Option (Option UInt8)} {d : Mem} (h : ∀ a w, last a = some w → d a = w.getD 0xff)
    (addr : Nat) (data : List UInt8) (hclr : ∀ j < data.length, Clears (d (addr + j)) (bufferOf data j)) :
    ∀ a w, Cover.writeMarks last addr data a = some w → program d addr data.length (bufferOf data) a = w.getD 0xff := by
  intro a w hw
  unfold Cover.writeMarks at hw
  split at hw
  · rename_i hin
    obtain ⟨v, -, rfl⟩ := Option.map_eq_some_iff.1 hw
    have hc := hclr (a - addr) (Nat.sub_lt_left_of_lt_add hin.1 hin.2)
    rw [Nat.add_sub_cancel' hin.1] at hc
    rw [program_of hin]
    exact hc
  · rename_i hin
    rw [program_other hin]
    exact h a w hw

/-- A run with marks is a run. -/
theorem Cover.step_sys {e : Event} {c c' : Cover W} (ht : Cover.step e c = some c') :
    Norflash.step e c.sys = some c'.sys := by
  cases e with
  | erase mod_id addr len =>
    obtain ⟨⟨r, sys⟩, hcall, ht⟩ := Option.bind_eq_some_iff.1 ht
    cases ht
    simp [Norflash.step, hcall]
  | write mod_id addr data =>
    obtain ⟨⟨r, sys⟩, hcall, ht⟩ := Option.bind_eq_some_iff.1 ht
    cases ht
    simp [Norflash.step, hcall]
  | flush env =>
    obtain ⟨sys, hcall, rfl⟩ := Option.map_eq_some_iff.1 ht
    exact hcall
  | register _ | flushDisable | flushEnable =>
    cases ht
    rfl

theorem Sys.erase_direct {s s' : Sys W} {mod_id addr len : Nat} {r : Ret} (ht : s.erase mod_id addr len = some (r, s')) :
    s'.direct = if r = .ok then NorMem.erase s.direct addr len else s.direct := by
  obtain ⟨⟨r₁, sc, api⟩, -, ht⟩ := Option.bind_eq_some_iff.1 ht
  cases ht
  rfl

theorem Sys.write_direct {s s' : Sys W} {mod_id addr len : Nat} {data : Nat → UInt8} {r : Ret}
    (ht : s.write mod_id addr data len = some (r, s')) :
    s'.direct = if r = .ok then program s.direct addr len data else s.direct := by
  obtain ⟨⟨r₁, sc, api⟩, -, ht⟩ := Option.bind_eq_some_iff.1 ht
  cases ht
  rfl

/-- The directly executed memory follows the marks, as writes only clear bits. -/
theorem Marked.step {e : Event} {c c' : Cover W} (h : Marked c) (hc : SectorCall e c.sys) (ht : Cover.step e c = some c') :
    Marked c' := by
  cases e with
  | erase mod_id addr len =>
    obtain ⟨⟨r, sys⟩, hcall, ht⟩ := Option.bind_eq_some_iff.1 ht
    cases ht
    have hd := Sys.erase_direct hcall
    unfold Marked
    simp only [hd]
    split
    · exact Marked.erase h addr len
    · exact h
  | write mod_id addr data =>
    obtain ⟨⟨r, sys⟩, hcall, ht⟩ := Option.bind_eq_some_iff.1 ht
    cases ht
    have hd := Sys.write_direct hcall
    unfold Marked
    simp only [hd]
    split
    · exact Marked.write h addr data hc.2
    · exact h
  | flush env =>
    obtain ⟨sys, hcall, rfl⟩ := Option.map_eq_some_iff.1 ht
    obtain ⟨⟨_, _, api⟩, -, hcall⟩ := Option.bind_eq_some_iff.1 hcall
    cases hcall
    exact h
  | register _ | flushDisable | flushEnable =>
    cases ht
    exact h

/-! ## Coverage -/

theorem Cover.sys_run {cond : Event → Sys W → Prop} {flash : Mem} {c : Cover W} {evs : List Event}
    (h : Run Cover.step (fun e c => cond e c.sys) (· = Cover.initial W flash) c evs) :
    Run Norflash.step cond (· = Norflash.initial W flash) c.sys evs := by
  induction h with
  | nil h =>
    subst h
    exact .nil rfl
  | snoc _ hc ht ih => exact ih.snoc hc (Cover.step_sys ht)

theorem Cover.marked_of_run {cond : Event → Sys W → Prop} (hcond : ∀ e s, cond e s → SectorCall e s) {flash : Mem}
    {c : Cover W} {evs : List Event}
    (h : Run Cover.step (fun e c => cond e c.sys) (· = Cover.initial W flash) c evs) : Marked c := by
  refine h.inv Marked ?_ fun e c c' hm hc ht => hm.step (hcond e _ hc) ht
  rintro _ rfl a w hw
  cases hw

/-- In a run that meets `ReadCond`, covered bytes are what was last written to
them or erased. -/
theorem erase_covered {flash : Mem} {c : Cover W} {evs : List Event}
    (h : Run Cover.step (fun e c => ReadCond e c.sys) (· = Cover.initial W flash) c evs) : Covered ReadWithin c := by
  have hmarked : Marked c := Cover.marked_of_run (fun _ _ hc => hc.1.1) h
  obtain ⟨L, hL⟩ := shows_of_run (Cover.sys_run h)
  refine ⟨fun hdrained a w hw => ?_, fun mod_id addr len hr => ?_⟩
  · obtain ⟨L', hL'⟩ := inStep_of_run sectorInv_rules (.initial flash) (fun _ _ hc => hc.1)
      (fun _ _ _ _ _ _ _ _ _ => trivial) (Cover.sys_run h)
    rw [hL'.drained hdrained]
    exact hmarked a w hw
  · obtain ⟨r, bytes, hrun, hok⟩ := hL.read mod_id addr len hr.1 hr.2
    refine ⟨r, bytes, hrun, fun he j hj w hw => ?_⟩
    rw [hok he, List.getElem?_map, List.getElem?_range hj, Option.map_some, hmarked _ w hw]

/-- A run that is computed step by step. -/
theorem Cover.run_of_check (W : Nat) (cond : Event → Cover W → Prop) [∀ e c, Decidable (cond e c)] (flash : Mem)
    (evs : List Event) (good : Cover W → Bool)
    (h : (runAll Cover.step (fun e c => decide (cond e c)) evs (Cover.initial W flash)).any good = true) :
    ∃ c, Run Cover.step cond (· = Cover.initial W flash) c evs ∧ good c = true :=
  exists_run_of_check Cover.step cond _ (some (Cover.initial W flash)) evs good (fun _ hs => (Option.some.inj hs).symm) h

/-- A sector erased, written to, started, written to again, and its neighbour erased. -/
theorem erase_covered_example : ∃ c : Cover 4, Covered ReadWithin c ∧
    c.last 0x1000 = some (some 1) ∧ c.last 0x1001 = some (some 2) ∧ c.last 0x1002 = some none := by
  obtain ⟨c, hr, hg⟩ := Cover.run_of_check 4 (fun e c => ReadCond e c.sys) (fun _ => 0)
    [.register (eightSectors 0 0), .erase 0 0x1000 0x1000, .write 0 0x1000 [1], flushSuspended fun _ => 7,
      .write 0 0x1001 [2], .erase 0 0x2000 0x1000]
    (fun c => decide (c.last 0x1000 = some (some 1) ∧ c.last 0x1001 = some (some 2) ∧ c.last 0x1002 = some none))
    (by decide +kernel)
  exact ⟨c, erase_covered hr, of_decide_eq_true hg⟩

/-- A block erase is lost but for its first sector when that sector is erased
again: the node is taken for one of the sector and replaced. -/
theorem block_not_covered : ¬ ∀ (W : Nat) (flash : Mem) (c : Cover W) (evs : List Event),
    Run Cover.step (fun _ _ => True) (· = Cover.initial W flash) c evs → Covered (fun _ _ _ _ => True) c := by
  intro hclaim
  obtain ⟨c, hr, hg⟩ := Cover.run_of_check 1 (fun _ _ => True) (fun _ => 0)
    [.register (eightSectors 0 0), .erase 0 0 0x8000, .erase 0 0 0x1000, flushOk]
    (fun c => decide ((∀ m, (c.sys.api.mod_info m).opera_info = none) ∧ c.last 0x1000 = some none ∧
      c.sys.api.hal.flash 0x1000 = 0)) (by decide +kernel)
  obtain ⟨hnone, hl, hf⟩ := of_decide_eq_true hg
  have := (hclaim 1 _ c _ hr).drained hnone 0x1000 none hl
  rw [hf] at this
  cases this

/-! ## Block erases -/

theorem sectorOf_of_reg {mi mi' : ModuleInfo W} (h : mi'.reg = mi.reg) (a : Nat) : sectorOf mi' a = sectorOf mi a := by
  simp only [ModuleInfo.reg, ModuleInfo.mk.injEq] at h
  simp only [sectorOf, h]

/-- While an accepted erase is queued, whatever its length, reads of sectors
other than the one it starts at return what they did before. -/
theorem erase_unseen {flash : Mem} {s s' : Sys W} {evs : List Event}
    (h : Run step ListCond (· = initial W flash) s evs) {mod_id addr len : Nat} (hsafe : EraseSafe s.api mod_id addr)
    (ht : s.erase mod_id addr len = some (.ok, s')) {id a n : Nat}
    (hother : ∀ m : ModId, m.val = id → sectorOf (s.api.mod_info m) a ≠ addr) {bytes bytes' : List UInt8}
    (hb : norflashApiRead id a n s.api = some (.ok, bytes)) (hb' : norflashApiRead id a n s'.api = some (.ok, bytes')) :
    bytes' = bytes := by
  obtain ⟨L, hL⟩ := sysInv_of_run h
  obtain ⟨L', hres, -⟩ := Sys.erase_sysInv hL hsafe ht
  obtain ⟨r, _, hrun, hok⟩ := norflashApiRead_spec hL id a n
  rw [hb] at hrun
  cases hrun
  obtain ⟨m, hm, -, hbytes⟩ := hok rfl
  obtain ⟨r', _, hrun', hok'⟩ := norflashApiRead_spec (hres.sysInv hL) id a n
  rw [hb'] at hrun'
  cases hrun'
  obtain ⟨m', hm', -, hbytes'⟩ := hok' rfl
  cases Fin.ext (hm'.trans hm.symm)
  have hsec := hother m hm
  generalize s'.api = api at hres hbytes'
  cases hres with
  | refused hne => exact absurd rfl hne
  | @queued m₁ head' p' L' _ _ _ hq =>
    -- the queue that the erase has joined has no new operation in the read's sector
    have hops : secOps (sectorOf (s.api.mod_info m) a) (queues p' L' m) =
        secOps (sectorOf (s.api.mod_info m) a) (queues s.api.pool L m) := by
      rw [hq]
      by_cases hmm : m = m₁
      · subst hmm
        rw [Function.update_self, enqErase_other hsec]
      · rw [Function.update_of_ne hmm]
    have hpool : (s.api.queued m₁ head' p').pool = p' := rfl
    have hhal : (s.api.queued m₁ head' p').hal = s.api.hal := rfl
    rw [hbytes _ rfl, hbytes' _ (sectorOf_of_reg (queued_reg _ _ _) a), hpool, hhal, hops]

end Norflash
