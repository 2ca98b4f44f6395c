import LittleBuddy.NvRecord.Runs
/-!
# Theorems about the NV record

Runs from a boot on: changes of the record and requests to save it, flushes of
both kinds in small steps, other users of the flash queue, and further boots. A
flush that the HAL suspends leaves a partly executed operation behind, so a
power cut can find the flash of every state of a run.
-/
open NorMem Norflash Runs TwoCopy

namespace NvRecord

variable {W : Nat} {cfg : Config}

section Decidable
variable (cfg : Config)

instance (e : Norflash.Event) : Decidable (cfg.Foreign e) :=
  match e with
  | .erase .. | .write .. => inferInstanceAs (Decidable (_ ∧ ∀ _, _))
  | .register _ | .flush _ | .flushDisable | .flushEnable => inferInstanceAs (Decidable True)

instance (e : Event) (s : NvSys W) : Decidable (cfg.InTurn e s) :=
  match e with
  | .run _ _ => inferInstanceAs (Decidable (∀ pc ∈ s.flushes[_]?, _ → ∀ pc' ∈ _, _))
  | .other _ => inferInstanceAs (Decidable (_ ∧ _))
  | .mutate _ | .update | .call _ | .boot _ => inferInstanceAs (Decidable True)

end Decidable

/-! ## Power cuts -/

/-- The flash holds a record that a boot accepts. -/
def Config.Recoverable (cfg : Config) (flash : Mem) : Prop := ∃ c, cfg.nvRecordDataIsValid flash (cfg.addr c) = true

theorem recoverable_iff {flash : Mem} : cfg.Recoverable flash ↔
    (cfg.record flash (cfg.addr .main)).isSome = true ∨ (cfg.record flash (cfg.addr .bak)).isSome = true := by
  have hrec : ∀ c, (cfg.record flash (cfg.addr c)).isSome = true ↔ cfg.nvRecordDataIsValid flash (cfg.addr c) = true :=
    fun c => by
      unfold Config.record
      split <;> simp_all
  rw [hrec, hrec]
  constructor
  · rintro ⟨c, hc⟩
    cases c
    · exact .inl hc
    · exact .inr hc
  · rintro (h | h)
    · exact ⟨.main, h⟩
    · exact ⟨.bak, h⟩

/-- The first boot of a run. -/
def Config.Booted (cfg : Config) (p : Mem → Prop) (s : NvSys W) : Prop :=
  ∃ flash ram, p flash ∧ cfg.nvRecordExtensionInit flash ram = some s

theorem Effect.guarded {s s' : NvSys W} {a b : Store (List UInt8)} {e : Event} (he : Effect cfg s s' a b e)
    (hf : Found a (cfg.record s.dev.api.hal.flash (cfg.addr .main)) (cfg.record s.dev.api.hal.flash (cfg.addr .bak)))
    (hg : Guarded a) : Guarded b := by
  have href : Refines a b → Guarded b := by
    rintro (rfl | hstep)
    · exact hg
    · exact hstep.guarded hg
  cases e with
  | mutate f =>
    rw [show b = _ from he]
    exact hg.mutate _
  | update =>
    rw [show b = _ from he]
    exact hg.request
  | call a => exact href he
  | run k env =>
    rcases he with hr | ⟨-, hclear, -⟩
    · exact href hr
    · rw [hclear]
      exact hg.clear
  | other e => exact href he
  | boot ram =>
    rw [show b = _ from he]
    exact guarded_boot (hg.found hf)

/-- From a flash with a valid record on, in every state that a run reaches the
flash has a valid record. -/
theorem crash_consistent {s : NvSys W} {evs : List Event}
    (h : Run cfg.step cfg.InTurn (cfg.Booted cfg.Recoverable) s evs) : cfg.Recoverable s.dev.api.hal.flash := by
  have hinv : ∃ L o, NvInv cfg s L o ∧ Guarded (shown cfg s L o) := by
    refine h.inv (fun s => ∃ L o, NvInv cfg s L o ∧ Guarded (shown cfg s L o)) ?_ fun e s s' hi hc ht => ?_
    · rintro s ⟨flash, ram, hp, hboot⟩
      obtain ⟨hinv, -, hshown⟩ := nvRecordExtensionInit_spec hboot
      exact ⟨_, _, hinv, hshown ▸ guarded_boot (recoverable_iff.1 hp)⟩
    · obtain ⟨L, o, hinv, hg⟩ := hi
      obtain ⟨L', o', hinv', he⟩ := step_effect hinv hc ht
      exact ⟨L', o', hinv', he.guarded hinv.found hg⟩
  obtain ⟨L, o, hinv, hg⟩ := hinv
  exact recoverable_iff.2 (hg.found hinv.found)

/-- A record of four bytes in the sectors at `0x1000` and `0x2000`. -/
def fourBytes : Config where
  userdata_start := 0x1000
  userdata_len := 0x2000
  block_size := 0x8000
  page_size := 0x100
  valid_len := 4
  default_items := fun _ => 0
  aligned := rfl
  fits := by decide

/-- Both sectors hold the record of bytes `x`. -/
def savedFlash (cfg : Config) (x : UInt8) : Mem := fun a =>
  cfg.setCrc (cfg.localExtensionData fun _ => x) ((a - cfg.userdata_start) % extensionSize)

def runOk (k : Nat) : Event := .run k ⟨true, .ok⟩

/-- The record survives in the backup sector while the main sector is half erased. -/
theorem crash_consistent_example : ∃ s : NvSys 1, fourBytes.Recoverable s.dev.api.hal.flash ∧
    fourBytes.nvRecordDataIsValid s.dev.api.hal.flash 0x1000 = false := by
  obtain ⟨s, hr, hg⟩ := exists_run_of_check (fourBytes.step (W := 1)) fourBytes.InTurn (fourBytes.Booted fourBytes.Recoverable)
    (fourBytes.nvRecordExtensionInit (savedFlash fourBytes 1) fun _ => 0)
    [runOk 0, .mutate fun _ => 2, .update, .call false, runOk 0, runOk 0, runOk 0, runOk 0,
      .other (.flush ⟨true, .suspended fun _ => 7⟩)]
    (fun s => !fourBytes.nvRecordDataIsValid s.dev.api.hal.flash 0x1000)
    (fun s hs => ⟨_, _, ⟨.main, by decide +kernel⟩, hs⟩) (by decide +kernel)
  exact ⟨s, crash_consistent hr, by simpa using hg⟩

/-! ## Versions -/

/-- The record, and the versions it has had: each change makes a new one, and
so does a boot that finds a record which never was one. The floor is the newest
version that a boot has recovered or whose main sector was completed. -/
structure Aged (W : Nat) where
  nv : NvSys W
  ages : Ages (List UInt8)

/-- The versions that an event makes. -/
def Config.newVersion (cfg : Config) (e : Event) (g : Ages (List UInt8)) (s' : NvSys W) : Ages (List UInt8) :=
  match e with
  | .mutate _ => g.mutate (cfg.items s'.ram 0)
  | .boot _ => g.boot (cfg.items s'.ram 0)
  | _ => g

/-- The versions after an event; the main sector may be complete by now. -/
def Config.ageBy (cfg : Config) (e : Event) (g : Ages (List UInt8)) (s' : NvSys W) : Ages (List UInt8) :=
  (cfg.newVersion e g s').complete (cfg.mainComplete s')

def Config.agedStep (cfg : Config) (e : Event) (x : Aged W) : Option (Aged W) := do
  let nv ← cfg.step e x.nv
  some ⟨nv, cfg.ageBy e x.ages nv⟩

/-- The first boot, before which there are no versions. -/
def Config.agedInit (cfg : Config) (flash : Mem) (ram : Nat → UInt8) : Option (Aged W) := do
  let nv ← cfg.nvRecordExtensionInit flash ram
  some ⟨nv, cfg.ageBy (.boot ram) ⟨[], 0⟩ nv⟩

/-- Two valid sectors hold the same record. -/
def Config.SameRecord (cfg : Config) (flash : Mem) : Prop :=
  cfg.nvRecordDataIsValid flash (cfg.addr .main) = true → cfg.nvRecordDataIsValid flash (cfg.addr .bak) = true →
    cfg.items flash (cfg.addr .main) = cfg.items flash (cfg.addr .bak)

/-- The check accepts no main sector, as the only one, of which operations are
pending, unless it is already written completely. -/
def Config.WholeRecord (cfg : Config) (s : NvSys W) : Prop :=
  cfg.nvRecordDataIsValid s.dev.api.hal.flash (cfg.addr .main) = true →
    cfg.nvRecordDataIsValid s.dev.api.hal.flash (cfg.addr .bak) = false →
      cfg.record s.dev.direct (cfg.addr .main) = some (cfg.items s.dev.api.hal.flash (cfg.addr .main))

/-- Moreover a boot finds no two valid sectors with different records. -/
def Config.BootsSame (cfg : Config) (e : Event) (s : NvSys W) : Prop :=
  cfg.InTurn e s ∧
    match e with
    | .boot _ => cfg.SameRecord s.dev.api.hal.flash ∧ cfg.WholeRecord s
    | _ => True

section Decidable
variable (cfg : Config)

instance (flash : Mem) : Decidable (cfg.SameRecord flash) := inferInstanceAs (Decidable (_ → _ → _))

instance (s : NvSys W) : Decidable (cfg.WholeRecord s) := inferInstanceAs (Decidable (_ → _ → _))

instance (e : Event) (s : NvSys W) : Decidable (cfg.BootsSame e s) :=
  match e with
  | .boot _ => inferInstanceAs (Decidable (_ ∧ _ ∧ _))
  | .mutate _ | .update | .call _ | .run _ _ | .other _ => inferInstanceAs (Decidable (_ ∧ True))

end Decidable

theorem record_eq_some {m : Nat → UInt8} {a : Nat} {r : List UInt8} :
    cfg.record m a = some r ↔ cfg.nvRecordDataIsValid m a = true ∧ cfg.items m a = r := by
  unfold Config.record
  split <;> simp_all

theorem record_eq_none {m : Nat → UInt8} {a : Nat} : cfg.record m a = none ↔ cfg.nvRecordDataIsValid m a = false := by
  unfold Config.record
  split <;> simp_all

theorem Config.SameRecord.eq {flash : Mem} (h : cfg.SameRecord flash) : ∀ a c,
    cfg.record flash (cfg.addr .main) = some a → cfg.record flash (cfg.addr .bak) = some c → a = c := by
  intro a c ha hc
  obtain ⟨hm, rfl⟩ := record_eq_some.1 ha
  obtain ⟨hb, rfl⟩ := record_eq_some.1 hc
  exact h hm hb

theorem sound_of {s : NvSys W} {L : ModId → List (Slot W)} {o : Option Pc} (hsame : cfg.SameRecord s.dev.api.hal.flash)
    (hwhole : cfg.WholeRecord s) : Sound (shown cfg s L o) (cfg.record s.dev.api.hal.flash (cfg.addr .main))
      (cfg.record s.dev.api.hal.flash (cfg.addr .bak)) where
  same := hsame.eq
  whole a ha hb := by
    obtain ⟨hm, rfl⟩ := record_eq_some.1 ha
    exact hwhole hm (record_eq_none.1 hb)

/-- A boot leaves the recovered record in RAM. -/
theorem items_boot {s s' : NvSys W} {ram : Nat → UInt8} (ht : cfg.step (.boot ram) s = some s') : cfg.items s'.ram 0 =
    recovered cfg.default (cfg.record s.dev.api.hal.flash (cfg.addr .main))
      (cfg.record s.dev.api.hal.flash (cfg.addr .bak)) := by
  obtain ⟨-, -, hshown⟩ := nvRecordExtensionInit_spec ht
  exact congrArg Store.ram hshown

theorem monotone_init {x : Aged W} {flash : Mem} {ram : Nat → UInt8} (hsame : cfg.SameRecord flash)
    (ht : cfg.agedInit flash ram = some x) : ∃ L o, NvInv cfg x.nv L o ∧
      Monotone cfg.default (shown cfg x.nv L o) x.ages := by
  obtain ⟨s, hboot, hx⟩ := Option.bind_eq_some_iff.1 ht
  cases hx
  obtain ⟨hinv, -, hshown⟩ := nvRecordExtensionInit_spec hboot
  refine ⟨_, _, hinv, ?_⟩
  have hm := monotone_boot cfg.default ⟨[], 0⟩ (Nat.le_refl 0) hsame.eq (fun hr => by cases hr)
  have hram : cfg.items s.ram 0 = recovered cfg.default (cfg.record flash (cfg.addr .main))
      (cfg.record flash (cfg.addr .bak)) := congrArg Store.ram hshown
  rw [← hshown, ← hram] at hm
  have := hm.complete
  rwa [← hinv.mainComplete] at this

/-- Every event keeps what a boot may recover recent enough. -/
theorem Effect.monotone {s s' : NvSys W} {a b : Store (List UInt8)} {g : Ages (List UInt8)} {e : Event}
    (ht : cfg.step e s = some s') (he : Effect cfg s s' a b e) (hm : Monotone cfg.default a g)
    (hf : Found a (cfg.record s.dev.api.hal.flash (cfg.addr .main)) (cfg.record s.dev.api.hal.flash (cfg.addr .bak)))
    (hb : ∀ ram, e = .boot ram → Sound a (cfg.record s.dev.api.hal.flash (cfg.addr .main))
      (cfg.record s.dev.api.hal.flash (cfg.addr .bak))) :
    Monotone cfg.default b (cfg.newVersion e g s') := by
  have href : Refines a b → Monotone cfg.default b g := by
    rintro (rfl | hstep)
    · exact hm
    · exact hstep.monotone hm
  cases e with
  | mutate f =>
    rw [show b = _ from he]
    exact hm.mutate _
  | update =>
    rw [show b = _ from he]
    exact hm.request
  | call a => exact href he
  | run k env =>
    rcases he with hr | ⟨-, hclear, -⟩
    · exact href hr
    · rw [hclear]
      exact hm.clear
  | other e => exact href he
  | boot ram =>
    have hs := hb ram rfl
    rw [show b = _ from he, Config.newVersion, items_boot ht]
    exact monotone_boot cfg.default g hm.ram.floor_le hs.same fun _ => hm.recovered hf hs

/-- In a run whose boots find no two valid sectors with different records, a
boot recovers no version older than the floor. -/
theorem recovery_monotone {x : Aged W} {evs : List Event}
    (h : Run cfg.agedStep (fun e x => cfg.BootsSame e x.nv)
      (fun x => ∃ flash ram, cfg.SameRecord flash ∧ cfg.agedInit flash ram = some x) x evs)
    {ram : Nat → UInt8} {s' : NvSys W} (hb : cfg.BootsSame (.boot ram) x.nv) (ht : cfg.step (.boot ram) x.nv = some s') :
    x.ages.NotOlder (cfg.items s'.ram 0) := by
  have hinv : ∃ L o, NvInv cfg x.nv L o ∧ Monotone cfg.default (shown cfg x.nv L o) x.ages := by
    refine h.inv (fun x => ∃ L o, NvInv cfg x.nv L o ∧ Monotone cfg.default (shown cfg x.nv L o) x.ages) ?_
      fun e x x' hi hc ht => ?_
    · rintro x ⟨flash, ram, hsame, hinit⟩
      exact monotone_init hsame hinit
    · obtain ⟨L, o, hinv, hm⟩ := hi
      obtain ⟨s₁, hstep, hx⟩ := Option.bind_eq_some_iff.1 ht
      cases hx
      obtain ⟨L', o', hinv', he⟩ := step_effect hinv hc.1 hstep
      refine ⟨L', o', hinv', ?_⟩
      have := (he.monotone hstep hm hinv.found (by rintro ram rfl; exact sound_of hc.2.1 hc.2.2)).complete
      rwa [← hinv'.mainComplete] at this
  obtain ⟨L, o, hinv, hm⟩ := hinv
  rw [items_boot ht]
  exact hm.recovered hinv.found (sound_of hb.2.1 hb.2.2)

/-- A record is changed and saved, and the main sector is being written when the
power is cut: the boot recovers the old record. -/
theorem recovery_monotone_example : ∃ x : Aged 1, ∃ s' : NvSys 1, x.ages.NotOlder (fourBytes.items s'.ram 0) ∧
    x.ages.hist.length = 2 ∧ x.ages.floor = 0 := by
  obtain ⟨x, hr, hg⟩ := exists_run_of_check (fourBytes.agedStep (W := 1)) (fun e x => fourBytes.BootsSame e x.nv)
    (fun x => ∃ flash ram, fourBytes.SameRecord flash ∧ fourBytes.agedInit flash ram = some x)
    (fourBytes.agedInit (savedFlash fourBytes 1) fun _ => 0)
    ([runOk 0, .mutate fun _ => 2, .update, .call false] ++ List.replicate 10 (runOk 0))
    (fun x => decide (fourBytes.BootsSame (.boot fun _ => 0) x.nv ∧ x.ages.hist.length = 2 ∧ x.ages.floor = 0) &&
      (fourBytes.step (.boot fun _ => 0) x.nv).isSome)
    (fun x hx => ⟨_, _, by decide +kernel, hx⟩) (by decide +kernel)
  obtain ⟨hg, hs⟩ := Bool.and_eq_true_iff.1 hg
  obtain ⟨hb, hages⟩ := of_decide_eq_true hg
  obtain ⟨s', ht⟩ := Option.isSome_iff_exists.1 hs
  exact ⟨x, s', recovery_monotone hr hb ht, hages⟩

/-- Without `BootsSame` recovery can go back: a boot that finds a new main and an
old backup record leaves the old one there, and the next flush erases the new one. -/
theorem recovery_goes_back : ¬ ∀ (cfg : Config) (W : Nat) (x : Aged W) (evs : List Event),
    Run cfg.agedStep (fun e x => cfg.InTurn e x.nv) (fun x => ∃ flash ram, cfg.agedInit flash ram = some x) x evs →
      ∀ (ram : Nat → UInt8) (s' : NvSys W), cfg.step (.boot ram) x.nv = some s' →
        x.ages.NotOlder (cfg.items s'.ram 0) := by
  intro hclaim
  obtain ⟨x, hr, hg⟩ := exists_run_of_check (fourBytes.agedStep (W := 1)) (fun e x => fourBytes.InTurn e x.nv)
    (fun x => ∃ flash ram, fourBytes.agedInit flash ram = some x)
    (fourBytes.agedInit (savedFlash fourBytes 1) fun _ => 0)
    ([runOk 0, .mutate fun _ => 2, .update, .call false] ++ List.replicate 14 (runOk 0) ++
      [.boot fun _ => 0, runOk 0, .mutate fun _ => 3, .update, .call false] ++ List.replicate 4 (runOk 0) ++
      [.other (.flush ⟨true, .ok⟩)])
    (fun x => (fourBytes.step (.boot fun _ => 0) x.nv).any fun s' =>
      !decide (x.ages.NotOlder (fourBytes.items s'.ram 0)))
    (fun x hx => ⟨_, _, hx⟩) (by decide +kernel)
  obtain ⟨s', ht, hold⟩ := (Option.any_eq_true _ _).1 hg
  exact of_decide_eq_false (by simpa using hold) (hclaim fourBytes 1 x _ hr _ s' ht)

/-! ## Lost updates -/

/-- Moreover a synchronous flush takes the request back only while the record is
as it was written to the main sector, or an update is still to come. -/
def Config.ClearsWritten (cfg : Config) (e : Event) (s : NvSys W) : Prop :=
  cfg.InTurn e s ∧
    match e with
    | .run k _ => .mainClear ∈ s.flushes[k]? → s.awaiting = false →
        cfg.record s.dev.direct (cfg.addr .main) = some (cfg.items s.ram 0)
    | .boot _ => cfg.SameRecord s.dev.api.hal.flash
    | _ => True

instance (e : Event) (s : NvSys W) : Decidable (cfg.ClearsWritten e s) :=
  match e with
  | .run _ _ => inferInstanceAs (Decidable (_ ∧ (_ → _ → _)))
  | .boot _ => inferInstanceAs (Decidable (_ ∧ _))
  | .mutate _ | .update | .call _ | .other _ => inferInstanceAs (Decidable (_ ∧ True))

theorem Effect.saved {s s' : NvSys W} {L : ModId → List (Slot W)} {o : Option Pc} {b : Store (List UInt8)} {e : Event}
    (hc : cfg.ClearsWritten e s) (he : Effect cfg s s' (shown cfg s L o) b e) (hs : Saved (shown cfg s L o)) : Saved b := by
  have href : Refines (shown cfg s L o) b → Saved b := by
    rintro (rfl | hstep)
    · exact hs
    · exact hstep.saved hs
  cases e with
  | mutate f =>
    rw [show b = _ from he]
    exact hs.mutate _
  | update =>
    rw [show b = _ from he]
    exact saved_request
  | call a => exact href he
  | run k env =>
    rcases he with hr | ⟨hk, hclear, hp⟩
    · exact href hr
    · rw [hclear]
      exact saved_clear hp (hc.2 (Option.mem_def.2 hk))
  | other e => exact href he
  | boot ram =>
    rw [show b = _ from he]
    exact saved_boot hc.2.eq

theorem idle_requested {s : NvSys W} {pc : Pc} (h : pc.fits s = true) (hs : s.state = .idle) (hin : pc.outside = false) :
    s.is_update = true := by
  cases pc with
  | ifErase c => cases c <;> simp_all [Pc.fits, NvSys.callsMain, NvSys.callsBak]
  | erase c => cases c <;> simp_all [Pc.fits, Copy.erases]
  | eraseFlush c => cases c <;> simp_all [Pc.fits, Copy.erases]
  | eraseFree c => cases c <;> simp_all [Pc.fits, Copy.erases]
  | setErased c => cases c <;> simp_all [Pc.fits, Copy.erases]
  | ifWrite c => cases c <;> simp_all [Pc.fits, Copy.writes]
  | writeFlush c => cases c <;> simp_all [Pc.fits, Copy.writes]
  | writeFree c => cases c <;> simp_all [Pc.fits, Copy.writes]
  | drain c => cases c <;> simp_all [Pc.fits]
  | drainCheck c => cases c <;> simp_all [Pc.fits]
  | setDone c => cases c <;> simp_all [Pc.fits]
  | _ => simp_all [Pc.fits, Pc.outside, Copy.writes, NvSys.callsMain, NvSys.callsBak]

/-- With the flush at rest and no request, both sectors hold the record of the RAM. -/
theorem no_lost_update {s : NvSys W} {evs : List Event}
    (h : Run cfg.step cfg.ClearsWritten (cfg.Booted cfg.SameRecord) s evs) (hidle : s.state = .idle)
    (hupdate : s.is_update = false) (hawaiting : s.awaiting = false) (c : Copy) :
    cfg.items s.dev.api.hal.flash (cfg.addr c) = cfg.items s.ram 0 := by
  have hinv : ∃ L o, NvInv cfg s L o ∧ Saved (shown cfg s L o) := by
    refine h.inv (fun s => ∃ L o, NvInv cfg s L o ∧ Saved (shown cfg s L o)) ?_ fun e s s' hi hc ht => ?_
    · rintro s ⟨flash, ram, hp, hboot⟩
      obtain ⟨hinv, -, hshown⟩ := nvRecordExtensionInit_spec hboot
      exact ⟨_, _, hinv, hshown ▸ saved_boot hp.eq⟩
    · obtain ⟨L, o, hinv, hs⟩ := hi
      obtain ⟨L', o', hinv', he⟩ := step_effect hinv hc.1 ht
      exact ⟨L', o', hinv', he.saved hc hs⟩
  obtain ⟨L, o, hinv, hs⟩ := hinv
  -- a flush that is inside while the state is idle has found the request
  have ho : o = none := by
    cases o with
    | none => rfl
    | some pc =>
      have hin : pc ∈ inside s.flushes := by simp [hinv.focus]
      have hout : pc.outside = false := by simpa [inside] using (List.mem_filter.1 hin).2
      have := idle_requested (hinv.core.fits pc rfl) hidle hout
      rw [hupdate] at this
      cases this
  subst ho
  have hphase : (shown cfg s L none).phase = .idle := by simp [shown, view, stageAt, hidle, stateStage, Stage.phase]
  have hf := hinv.found
  cases c with
  | main =>
    have := (hf.main (by simp [hphase]) (by simp [hphase])).trans (hs.main hupdate hawaiting)
    exact (record_eq_some.1 this).2
  | bak =>
    have := (hf.bak (by simp [hphase])).trans (hs.bak hphase hupdate hawaiting)
    exact (record_eq_some.1 this).2

theorem no_lost_update_example : ∃ s : NvSys 1, fourBytes.items s.dev.api.hal.flash 0x2000 = fourBytes.items s.ram 0 ∧
    fourBytes.items s.ram 0 = [2, 2, 2, 2] := by
  obtain ⟨s, hr, hg⟩ := exists_run_of_check (fourBytes.step (W := 1)) fourBytes.ClearsWritten
    (fourBytes.Booted fourBytes.SameRecord) (fourBytes.nvRecordExtensionInit (savedFlash fourBytes 1) fun _ => 0)
    ([runOk 0, .mutate fun _ => 2, .update, .call false] ++ List.replicate 76 (runOk 0))
    (fun s => decide (s.state = .idle ∧ s.is_update = false ∧ s.awaiting = false ∧
      fourBytes.items s.ram 0 = [2, 2, 2, 2]))
    (fun s hs => ⟨_, _, by decide +kernel, hs⟩) (by decide +kernel)
  obtain ⟨hidle, hupdate, hawaiting, hram⟩ := of_decide_eq_true hg
  exact ⟨s, no_lost_update hr hidle hupdate hawaiting .bak, hram⟩

/-- Without `ClearsWritten` an update can be lost: one that falls between the
synchronous write of the main sector and the clearing of the request. -/
theorem update_lost : ¬ ∀ (cfg : Config) (W : Nat) (s : NvSys W) (evs : List Event),
    Run cfg.step cfg.InTurn (cfg.Booted cfg.SameRecord) s evs → (∀ ram, .boot ram ∉ evs) → s.state = .idle →
      s.is_update = false → s.awaiting = false →
        ∀ c, cfg.items s.dev.api.hal.flash (cfg.addr c) = cfg.items s.ram 0 := by
  intro hclaim
  obtain ⟨s, hr, hg⟩ := exists_run_of_check (fourBytes.step (W := 1)) fourBytes.InTurn (fourBytes.Booted fourBytes.SameRecord)
    (fourBytes.nvRecordExtensionInit (savedFlash fourBytes 1) fun _ => 0)
    ([runOk 0, .mutate fun _ => 2, .update, .call false] ++ List.replicate 7 (runOk 0) ++
      [.mutate fun _ => 3, .update] ++ List.replicate 69 (runOk 0))
    (fun s => decide (s.state = .idle ∧ s.is_update = false ∧ s.awaiting = false ∧
      fourBytes.items s.dev.api.hal.flash 0x1000 ≠ fourBytes.items s.ram 0))
    (fun s hs => ⟨_, _, by decide +kernel, hs⟩) (by decide +kernel)
  obtain ⟨hidle, hupdate, hawaiting, hne⟩ := of_decide_eq_true hg
  exact hne (hclaim fourBytes 1 s _ hr (by simp [runOk]) hidle hupdate hawaiting .main)

end NvRecord
