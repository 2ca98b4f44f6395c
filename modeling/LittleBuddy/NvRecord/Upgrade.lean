import LittleBuddy.NvRecord.Theorems
/-!
# Upgrades of the NV record

A firmware with more items finds a record under a shorter `header.validLen`.
`nv_record_data_is_valid` accepts it, and `nv_record_extension_init` copies
`NV_EXTENSION_VALID_LEN` bytes of the sector over the initial items, the stored
ones and whatever is behind them. What a flush then writes to the main sector is
the record in RAM, under the new length.
-/
open NorMem Norflash Runs

namespace NvRecord

variable {W : Nat} {cfg : Config} {s s' s₁ : NvSys W}

/-! ## Headers -/

/-- The header is the one of this firmware. -/
structure Config.Headed (cfg : Config) (m : Nat → UInt8) : Prop where
  magic : getU32 m 0 = magicNumber
  version : getU16 m 4 = majorVersion
  len : getU32 m 8 = cfg.valid_len

theorem headed_localExtensionData (ram : Nat → UInt8) : cfg.Headed (cfg.localExtensionData ram) where
  magic := (getU32_memcpy (.inl (by decide))).trans <| (getU32_memcpy (.inl (by decide))).trans <|
    (getU32_memcpy (.inl (by decide))).trans <| (getU32_memcpy (.inl (by decide))).trans (getU32_putU32 (by decide))
  version := (getU16_memcpy (.inl (by decide))).trans <| (getU16_memcpy (.inl (by decide))).trans <|
    (getU16_memcpy (.inl (by decide))).trans (getU16_putU16 (by decide))
  len := by
    have hfits := cfg.fits
    exact (getU32_memcpy (.inl (by decide))).trans (getU32_putU32 (by simp only [extensionSize] at hfits; omega))

/-- Changes behind the first 12 bytes leave the header's constants. -/
theorem Config.Headed.memcpy {m : Nat → UInt8} (h : cfg.Headed m) {offs : Nat} (hoffs : 12 ≤ offs) (data : Nat → UInt8)
    (n : Nat) : cfg.Headed (memcpy m offs data n) where
  magic := (getU32_memcpy (.inl (by omega))).trans h.magic
  version := (getU16_memcpy (.inl (by omega))).trans h.version
  len := (getU32_memcpy (.inl (by omega))).trans h.len

/-- The record at `a` is valid under the length of this firmware, with these items. -/
structure Config.SavedAs (cfg : Config) (m : Nat → UInt8) (a : Nat) (items : List UInt8) : Prop where
  valid : cfg.nvRecordDataIsValid m a = true
  len : getU32 m (a + 8) = cfg.valid_len
  items : cfg.items m a = items

theorem Config.SavedAs.congr {m m' : Nat → UInt8} {a a' : Nat} {items : List UInt8} (h : cfg.SavedAs m a items)
    (hm : SameBytes extensionSize m' a' m a) : cfg.SavedAs m' a' items where
  valid := hm.valid_eq.trans h.valid
  len := (hm.getU32_eq (n := 8) (by decide)).trans h.len
  items := hm.items_eq.trans h.items

/-- With the CRC of its items the record in RAM is valid. -/
theorem Config.Headed.saved {m : Nat → UInt8} (h : cfg.Headed m) : cfg.SavedAs (cfg.setCrc m) 0 (cfg.items m 0) := by
  have hset : cfg.Headed (cfg.setCrc m) := by
    unfold Config.setCrc putU32
    exact h.memcpy (Nat.le_refl 12) _ _
  have hcrc : getU32 (cfg.setCrc m) (0 + 12) = (crc32 0 (cfg.items m 0)).toNat := getU32_putU32 (UInt32.toNat_lt _)
  have hitems : bytes (cfg.setCrc m) (0 + headerSize) cfg.valid_len = cfg.items m 0 := items_setCrc
  have hfits := Nat.le_of_lt cfg.fits
  refine ⟨?_, hset.len, items_setCrc⟩
  simp only [Config.nvRecordDataIsValid, Nat.zero_add, hset.magic, hset.version, hset.len]
  simp only [Nat.zero_add] at hcrc hitems
  simp [hcrc, hitems, hfits]

/-! ## The boot -/

/-- The sector that a boot takes the record from. -/
def Config.source (cfg : Config) (flash : Mem) : Option Copy :=
  if cfg.nvRecordDataIsValid flash (cfg.addr .main) then some .main
  else if cfg.nvRecordDataIsValid flash (cfg.addr .bak) then some .bak
  else none

/-- The stored items under their own length, and the initial content of the rest. -/
def Config.upgraded (cfg : Config) (flash : Mem) (ram : Nat → UInt8) (c : Copy) : List UInt8 :=
  bytes flash (cfg.addr c + headerSize) (getU32 flash (cfg.addr c + 8)) ++
    bytes ram (headerSize + getU32 flash (cfg.addr c + 8)) (cfg.valid_len - getU32 flash (cfg.addr c + 8))

theorem init_ram {flash : Mem} {ram : Nat → UInt8} {c : Copy} (hsource : cfg.source flash = some c)
    (hboot : cfg.nvRecordExtensionInit flash ram = some s) :
    ∃ m, cfg.Headed m ∧ s.ram = cfg.setCrc m ∧ cfg.items m 0 = cfg.items flash (cfg.addr c) := by
  refine ⟨memcpy (cfg.localExtensionData ram) headerSize (fun j => flash (cfg.addr c + headerSize + j)) cfg.valid_len,
    (headed_localExtensionData ram).memcpy (by decide) _ _, ?_, ?_⟩
  · unfold Config.nvRecordExtensionInit at hboot
    unfold Config.source at hsource
    simp only at hboot
    split at hboot
    · split at hboot <;> rename_i hmain hbak <;> rw [hmain, hbak] at hsource <;> cases hsource <;> cases hboot <;> rfl
    · cases hboot
  · rw [items_memcpy]
    exact List.map_congr_left fun j _ => by rw [Nat.zero_add]

theorem bytes_append (m : Nat → UInt8) (a n k : Nat) : bytes m a (n + k) = bytes m a n ++ bytes m (a + n) k := by
  simp only [bytes, List.range_add, List.map_append, List.map_map]
  congr 2
  funext j
  simp [Nat.add_assoc]

/-- The items of a shorter record are upgraded if what is behind them is the initial content. -/
theorem items_upgraded_iff {flash : Mem} {ram : Nat → UInt8} {c : Copy}
    (hshort : getU32 flash (cfg.addr c + 8) < cfg.valid_len) :
    cfg.items flash (cfg.addr c) = cfg.upgraded flash ram c ↔
      ∀ j, getU32 flash (cfg.addr c + 8) ≤ j → j < cfg.valid_len →
        flash (cfg.addr c + headerSize + j) = ram (headerSize + j) := by
  obtain ⟨k, hk⟩ := Nat.exists_eq_add_of_lt hshort
  rw [Nat.add_assoc] at hk
  unfold Config.items Config.upgraded
  rw [hk, bytes_append, Nat.add_sub_cancel_left, List.append_cancel_left_eq]
  constructor
  · intro h j hj hjk
    obtain ⟨i, rfl⟩ := Nat.exists_eq_add_of_le hj
    have hi : i ∈ List.range (k + 1) := List.mem_range.2 (by omega)
    have := List.map_inj_left.1 h i hi
    simpa only [Nat.add_assoc] using this
  · intro h
    refine List.map_congr_left fun i hi => ?_
    have := h (getU32 flash (cfg.addr c + 8) + i) (Nat.le_add_right _ _) (by have := List.mem_range.1 hi; omega)
    simpa only [Nat.add_assoc] using this

/-! ## What a flush does to the main sector -/

/-- Every byte of the main sector is erased. -/
def Config.MainErased (cfg : Config) (d : Mem) : Prop := ∀ j < extensionSize, d (cfg.addr .main + j) = 0xff

/-- The RAM is as before but for its CRC, and so is the main sector, if it was not
erased and has not got the image of the RAM. -/
structure MainStep (cfg : Config) (s s' : NvSys W) : Prop where
  ram : s'.ram = s.ram ∨ s'.ram = cfg.setCrc s.ram
  main : SameBytes extensionSize s'.dev.direct (cfg.addr .main) s.dev.direct (cfg.addr .main) ∨
    cfg.MainErased s'.dev.direct ∨ SameBytes extensionSize s'.dev.direct (cfg.addr .main) (cfg.setCrc s.ram) 0

section Steps
variable {env : FlushEnv} {r : Ret} {c : Copy} {pc : Pc} {next : Option Pc}

theorem MainStep.of_same (hram : s'.ram = s.ram)
    (hd : SameBytes extensionSize s'.dev.direct (cfg.addr .main) s.dev.direct (cfg.addr .main)) : MainStep cfg s s' :=
  ⟨.inl hram, .inl hd⟩

theorem MainStep.refl : MainStep cfg s s := .of_same rfl fun _ _ => rfl

theorem flushNow_same (ht : Config.flushNow env s = some s') : s'.ram = s.ram ∧ s'.dev.direct = s.dev.direct := by
  obtain ⟨dev', hrun, ht⟩ := Option.bind_eq_some_iff.1 ht
  cases ht
  obtain ⟨⟨b, l, api⟩, -, hdev⟩ := Option.bind_eq_some_iff.1 hrun
  cases hdev
  exact ⟨rfl, rfl⟩

theorem MainStep.flushNow (h : MainStep cfg s s₁) (ht : Config.flushNow env s₁ = some s') : MainStep cfg s s' := by
  obtain ⟨hram, hd⟩ := flushNow_same ht
  refine ⟨hram ▸ h.ram, ?_⟩
  rw [hd]
  exact h.main

theorem eraseCopy_main (ht : cfg.eraseCopy c s = some (r, s')) : MainStep cfg s s' := by
  obtain ⟨⟨r', dev'⟩, hrun, ht⟩ := Option.bind_eq_some_iff.1 ht
  cases ht
  obtain ⟨⟨r₁, l, api⟩, -, hdev⟩ := Option.bind_eq_some_iff.1 hrun
  cases hdev
  refine ⟨.inl rfl, ?_⟩
  dsimp only
  split
  · cases c with
    | main => exact .inr (.inl fun j hj => erase_of (by unfold InRange; omega))
    | bak => exact .inl fun j hj => erase_other (cfg.apart (o := 0) (cfg.addr_mod .bak) cfg.main_ne_bak hj (by simp))
  · exact .inl fun _ _ => rfl

theorem writeMain_main (herased : cfg.MainErased s.dev.direct) (ht : cfg.writeMain s = some (r, s')) :
    MainStep cfg s s' := by
  unfold Config.writeMain at ht
  simp only at ht
  split at ht
  · obtain ⟨⟨r', dev'⟩, hrun, ht⟩ := Option.bind_eq_some_iff.1 ht
    cases ht
    obtain ⟨⟨r₁, l, api⟩, -, hdev⟩ := Option.bind_eq_some_iff.1 hrun
    cases hdev
    refine ⟨.inr rfl, ?_⟩
    dsimp only
    split
    · refine .inr (.inr fun j hj => ?_)
      rw [program_of (by unfold InRange; omega), herased j hj, ff_and, Nat.add_sub_cancel_left, Nat.zero_add]
    · exact .inl fun _ _ => rfl
  · cases ht

/-- Wherever the copying has come to, it is behind the main sector. -/
theorem copyPage_main (ht : cfg.copyPage s = some (r, s')) : s'.ram = s.ram ∧
    SameBytes extensionSize s'.dev.direct (cfg.addr .main) s.dev.direct (cfg.addr .main) := by
  obtain ⟨⟨r₁, burn_buf⟩, -, ht⟩ := Option.bind_eq_some_iff.1 ht
  simp only at ht
  split at ht
  · obtain ⟨⟨r', dev'⟩, hrun, ht⟩ := Option.bind_eq_some_iff.1 ht
    cases ht
    obtain ⟨⟨r₂, l, api⟩, -, hdev⟩ := Option.bind_eq_some_iff.1 hrun
    cases hdev
    refine ⟨rfl, fun j hj => ?_⟩
    dsimp only
    split
    · exact program_other (by unfold InRange; simp only [Config.addr]; omega)
    · rfl
  · cases ht

theorem asyncMain_main (herased : Copy.writes .main s.state = true → cfg.MainErased s.dev.direct)
    (ht : cfg.asyncMain env s = some s') : MainStep cfg s s' := by
  unfold Config.asyncMain at ht
  split at ht
  · rcases onRet_cases ht with ⟨s₁, hcall, ht⟩ | ⟨s₁, hcall, ht⟩
    · have hm := eraseCopy_main hcall
      cases ht
      exact ⟨hm.ram, hm.main⟩
    · have hm := (eraseCopy_main hcall).flushNow ht
      exact ⟨hm.ram, hm.main⟩
  split at ht
  · rename_i hw
    have he : cfg.MainErased s.dev.direct := herased hw
    rcases onRet_cases ht with ⟨s₁, hcall, ht⟩ | ⟨s₁, hcall, ht⟩
    · have hm := writeMain_main (s := { s with state := .mainWritting }) he hcall
      cases ht
      exact ⟨hm.ram, hm.main⟩
    · have hm := (writeMain_main (s := { s with state := .mainWritting }) he hcall).flushNow ht
      exact ⟨hm.ram, hm.main⟩
  obtain ⟨b, -, ht⟩ := Option.bind_eq_some_iff.1 ht
  split at ht
  · cases ht
    exact .of_same rfl fun _ _ => rfl
  · exact MainStep.refl.flushNow ht

theorem copyLoop_main (fuel : Nat) {s s' : NvSys W} (ht : cfg.copyLoop env fuel s = some s') : s'.ram = s.ram ∧
    SameBytes extensionSize s'.dev.direct (cfg.addr .main) s.dev.direct (cfg.addr .main) := by
  induction fuel generalizing s with
  | zero => cases ht
  | succ fuel ih =>
    rcases onRet_cases ht with ⟨s₁, hcall, ht⟩ | ⟨s₁, hcall, ht⟩
    · obtain ⟨hram, hd⟩ := copyPage_main hcall
      simp only at ht
      split at ht
      · cases ht
        exact ⟨hram, hd⟩
      · obtain ⟨hram', hd'⟩ := ih ht
        exact ⟨hram'.trans hram, fun j hj => (hd' j hj).trans (hd j hj)⟩
    · obtain ⟨hram, hd⟩ := copyPage_main hcall
      obtain ⟨hram', hd'⟩ := flushNow_same ht
      exact ⟨hram'.trans hram, hd' ▸ hd⟩

theorem asyncBak_main (ht : cfg.asyncBak env s = some s') : MainStep cfg s s' := by
  unfold Config.asyncBak at ht
  split at ht
  · rcases onRet_cases ht with ⟨s₁, hcall, ht⟩ | ⟨s₁, hcall, ht⟩
    · have hm := eraseCopy_main hcall
      cases ht
      exact ⟨hm.ram, hm.main⟩
    · have hm := (eraseCopy_main hcall).flushNow ht
      exact ⟨hm.ram, hm.main⟩
  split at ht
  · obtain ⟨hram, hd⟩ := copyLoop_main _ ht
    exact .of_same hram hd
  obtain ⟨b, -, ht⟩ := Option.bind_eq_some_iff.1 ht
  split at ht
  · cases ht
    exact .of_same rfl fun _ _ => rfl
  · exact MainStep.refl.flushNow ht

/-- A step of a flush. The main sector is written only where it is erased. -/
theorem stepFlush_main (herased : pc = .asyncMain ∨ pc = .mainWrite → Copy.writes .main s.state = true →
      cfg.MainErased s.dev.direct) (hfit : pc = .mainWrite → Copy.writes .main s.state = true)
    (ht : cfg.stepFlush env pc s = some (next, s')) : MainStep cfg s s' := by
  have hflush : ∀ {next'}, (Config.flushNow env s).map (next', ·) = some (next, s') → MainStep cfg s s' := by
    intro next' hmap
    obtain ⟨s₁, hrun, he⟩ := Option.map_eq_some_iff.1 hmap
    cases he
    exact MainStep.refl.flushNow hrun
  cases pc with
  | asyncMain =>
    obtain ⟨s₁, hrun, he⟩ := Option.map_eq_some_iff.1 ht
    cases he
    exact asyncMain_main (herased (.inl rfl)) hrun
  | asyncBak =>
    obtain ⟨s₁, hrun, he⟩ := Option.map_eq_some_iff.1 ht
    cases he
    exact asyncBak_main hrun
  | erase c =>
    simp only [Config.stepFlush] at ht
    rcases onRet_cases ht with ⟨s₁, hcall, ht⟩ | ⟨s₁, hcall, ht⟩
    · cases ht
      exact eraseCopy_main hcall
    · cases ht
      exact eraseCopy_main hcall
  | mainWrite =>
    have he := herased (.inr rfl) (hfit rfl)
    simp only [Config.stepFlush] at ht
    rcases onRet_cases ht with ⟨s₁, hcall, ht⟩ | ⟨s₁, hcall, ht⟩
    · cases ht
      exact writeMain_main he hcall
    · cases ht
      exact writeMain_main he hcall
  | bakPage =>
    simp only [Config.stepFlush] at ht
    rcases onRet_cases ht with ⟨s₁, hcall, ht⟩ | ⟨s₁, hcall, ht⟩
    · cases ht
      obtain ⟨hram, hd⟩ := copyPage_main hcall
      exact .of_same hram hd
    · cases ht
      obtain ⟨hram, hd⟩ := copyPage_main hcall
      exact .of_same hram hd
  | eraseFlush c => exact hflush ht
  | writeFlush c => exact hflush ht
  | drain c => exact hflush ht
  | eraseFree c =>
    obtain ⟨n, -, ht⟩ := Option.bind_eq_some_iff.1 ht
    cases ht
    exact .refl
  | writeFree c =>
    obtain ⟨n, -, ht⟩ := Option.bind_eq_some_iff.1 ht
    cases ht
    exact .refl
  | drainCheck c =>
    obtain ⟨b, -, ht⟩ := Option.bind_eq_some_iff.1 ht
    split at ht <;> cases ht <;> exact .refl
  | bakIfWritten =>
    simp only [Config.stepFlush] at ht
    split at ht <;> cases ht <;> exact .of_same rfl fun _ _ => rfl
  | bakEnd a =>
    cases ht
    split <;> exact .of_same rfl fun _ _ => rfl
  | _ =>
    cases ht
    exact .of_same rfl fun _ _ => rfl

end Steps

/-! ## Runs -/

/-- Nobody changes the record, and the device stays on. -/
def Config.Unchanged (cfg : Config) (e : Event) (s : NvSys W) : Prop :=
  cfg.InTurn e s ∧
    match e with
    | .mutate _ | .boot _ => False
    | _ => True

instance (e : Event) (s : NvSys W) : Decidable (cfg.Unchanged e s) :=
  match e with
  | .mutate _ | .boot _ => inferInstanceAs (Decidable (_ ∧ False))
  | .update | .call _ | .run _ _ | .other _ => inferInstanceAs (Decidable (_ ∧ True))

variable {L : ModId → List (Slot W)} {o : Option Pc}

theorem event_main (h : NvInv cfg s L o) {e : Event} (hc : cfg.Unchanged e s) (ht : cfg.step e s = some s') :
    MainStep cfg s s' := by
  cases e with
  | mutate f => exact hc.2.elim
  | boot ram => exact hc.2.elim
  | update =>
    cases ht
    exact .of_same rfl fun _ _ => rfl
  | call a =>
    cases ht
    exact .of_same rfl fun _ _ => rfl
  | run k env =>
    obtain ⟨pc, hk, ht⟩ := Option.bind_eq_some_iff.1 ht
    obtain ⟨⟨next, s₁⟩, hstep, ht⟩ := Option.bind_eq_some_iff.1 ht
    cases ht
    have hat : pc.outside = false → At cfg s.dev L (stageAt (some pc) s.state s.written_size) ∧ pc.fits s = true := by
      intro hin
      have ho := h.focus_eq hk hin
      exact ⟨ho ▸ h.core.at_stage, h.core.fits pc ho⟩
    have hm := stepFlush_main (fun hpc hw => ?_) (fun hpc => ?_) hstep
    · exact ⟨hm.ram, hm.main⟩
    · have hst : stageAt (some pc) s.state s.written_size = .mainErased := by
        rcases hpc with rfl | rfl <;> exact stage_writesMain hw _
      have hok := (hat (by rcases hpc with rfl | rfl <;> rfl)).1.ok
      rw [hst] at hok
      exact hok.2
    · subst hpc
      exact (hat rfl).2
  | other e =>
    obtain ⟨dev', hrun, ht⟩ := Option.bind_eq_some_iff.1 ht
    cases ht
    obtain ⟨L', -, hd, -⟩ := h.core.at_stage.inv.other hc.1.1 hc.1.2 hrun
    exact .of_same rfl (hd .main)

theorem setCrc_congr {m m' : Nat → UInt8} (h : ∀ j, ¬ InRange 12 4 j → m' j = m j) : cfg.setCrc m' = cfg.setCrc m := by
  have hitems : cfg.items m' 0 = cfg.items m 0 :=
    List.map_congr_left fun j _ => h _ (by unfold InRange; simp only [headerSize]; omega)
  funext j
  unfold Config.setCrc putU32
  by_cases hj : InRange 12 4 j
  · rw [memcpy_of hj, memcpy_of hj, hitems]
  · rw [memcpy_other hj, memcpy_other hj, h j hj]

/-- The record in RAM is `m` but for its CRC; the main sector is as the boot found
it, erased, or has its image. -/
structure Unsaved (cfg : Config) (flash : Mem) (m : Nat → UInt8) (s : NvSys W) : Prop where
  ram : ∀ j, ¬ InRange 12 4 j → s.ram j = m j
  main : SameBytes extensionSize s.dev.direct (cfg.addr .main) flash (cfg.addr .main) ∨
    cfg.MainErased s.dev.direct ∨ SameBytes extensionSize s.dev.direct (cfg.addr .main) (cfg.setCrc m) 0

theorem Unsaved.step {flash : Mem} {m : Nat → UInt8} (h : Unsaved cfg flash m s) (hs : MainStep cfg s s') :
    Unsaved cfg flash m s' where
  ram j hj := by
    rcases hs.ram with hr | hr
    · rw [hr, h.ram j hj]
    · rw [hr, Config.setCrc, putU32, memcpy_other hj, h.ram j hj]
  main := by
    rcases hs.main with hsame | herased | himage
    · rcases h.main with hm | hm | hm
      · exact .inl fun j hj => (hsame j hj).trans (hm j hj)
      · exact .inr (.inl fun j hj => (hsame j hj).trans (hm j hj))
      · exact .inr (.inr fun j hj => (hsame j hj).trans (hm j hj))
    · exact .inr (.inl herased)
    · rw [setCrc_congr h.ram] at himage
      exact .inr (.inr himage)

/-- Nothing of the record is pending on its main sector. -/
def Config.MainQuiet (cfg : Config) (s : NvSys W) : Prop :=
  ∀ l ∈ pendingSlots s.dev.api nvMod, ∀ i ∈ l, (s.dev.api.pool.node i).addr ≠ cfg.addr .main

theorem NvInv.quiet (h : NvInv cfg s L o) (hq : cfg.MainQuiet s) : secOps (cfg.addr .main) (nvQueue s.dev L) = [] := by
  have hl := hq _ (pendingSlots_of h.core.at_stage.inv.in_step.sys nvMod)
  rw [secOps_eq_nil]
  intro n hn
  obtain ⟨i, hi, rfl⟩ := List.mem_map.1 hn
  exact hl i hi

/-- The main sector is as the boot found it, erased, or the record is saved there. -/
def Config.Saves (cfg : Config) (flash : Mem) (items : List UInt8) (s : NvSys W) : Prop :=
  cfg.MainQuiet s →
    SameBytes extensionSize s.dev.api.hal.flash (cfg.addr .main) flash (cfg.addr .main) ∨
      cfg.MainErased s.dev.api.hal.flash ∨ cfg.SavedAs s.dev.api.hal.flash (cfg.addr .main) items

/-- In every run in which nobody changes the record, it is saved under the new length. -/
theorem run_saves {flash : Mem} {ram m : Nat → UInt8} {s₀ : NvSys W} (hboot : cfg.nvRecordExtensionInit flash ram = some s₀)
    (hm : cfg.Headed m) (hram : s₀.ram = cfg.setCrc m) {evs : List Event}
    (h : Run cfg.step cfg.Unchanged (· = s₀) s evs) : cfg.Saves flash (cfg.items m 0) s := by
  obtain ⟨L, o, hinv, hup⟩ : ∃ L o, NvInv cfg s L o ∧ Unsaved cfg flash m s := by
    refine h.inv (fun s => ∃ L o, NvInv cfg s L o ∧ Unsaved cfg flash m s) ?_ fun e s s' hi hc ht => ?_
    · rintro s rfl
      obtain ⟨hinv, hflash, -⟩ := nvRecordExtensionInit_spec hboot
      refine ⟨_, _, hinv, fun j hj => ?_, .inl fun j hj => ?_⟩
      · rw [hram, Config.setCrc, putU32, memcpy_other hj]
      · have hd := hinv.core.at_stage.inv.flash_eq (c := .main) (by simp [nvQueue, queues]) hj
        rw [← hd, hflash]
    · obtain ⟨L, o, hinv, hup⟩ := hi
      obtain ⟨L', o', hinv', -⟩ := step_effect hinv hc.1 ht
      exact ⟨L', o', hinv', hup.step (event_main hinv hc ht)⟩
  intro hq
  have hd : SameBytes extensionSize s.dev.api.hal.flash (cfg.addr .main) s.dev.direct (cfg.addr .main) :=
    fun j hj => hinv.core.at_stage.inv.flash_eq (hinv.quiet hq) hj
  rcases hup.main with hsame | herased | himage
  · exact .inl fun j hj => (hd j hj).trans (hsame j hj)
  · exact .inr (.inl fun j hj => (hd j hj).trans (herased j hj))
  · exact .inr (.inr (hm.saved.congr fun j hj => (hd j hj).trans (himage j hj)))

/-- A shorter record is upgraded, in RAM and in every flush while nobody changes
it, exactly if what is behind its items in the sector is the initial content. -/
theorem upgrade_iff (cfg : Config) {W : Nat} (flash : Mem) (ram : Nat → UInt8) (c : Copy) (s : NvSys W)
    (hsource : cfg.source flash = some c) (hshort : getU32 flash (cfg.addr c + 8) < cfg.valid_len)
    (hboot : cfg.nvRecordExtensionInit flash ram = some s) :
    (cfg.SavedAs s.ram 0 (cfg.upgraded flash ram c) ∧
      ∀ s' evs, Run cfg.step cfg.Unchanged (· = s) s' evs → cfg.Saves flash (cfg.upgraded flash ram c) s') ↔
    ∀ j, getU32 flash (cfg.addr c + 8) ≤ j → j < cfg.valid_len →
      flash (cfg.addr c + headerSize + j) = ram (headerSize + j) := by
  obtain ⟨m, hm, hram, hitems⟩ := init_ram hsource hboot
  rw [← items_upgraded_iff hshort, ← hitems]
  constructor
  · rintro ⟨hsaved, -⟩
    rw [← hsaved.items, hram, items_setCrc]
  · intro h
    rw [← h, hram]
    exact ⟨hm.saved, fun s' evs hrun => run_saves hboot hm hram hrun⟩

/-- The firmware before, whose record has the first two of the four bytes. -/
def twoBytes : Config := { fourBytes with valid_len := 2, fits := by decide }

/-- Both sectors hold its record of two bytes `7`, and zeros behind them. -/
def shortFlash : Mem := fun a =>
  twoBytes.setCrc (twoBytes.localExtensionData fun j => if j < headerSize + 2 then 7 else 0)
    ((a - fourBytes.userdata_start) % extensionSize)

/-- Two new items whose initial content is zero. -/
theorem upgrade_zeros : ∃ s : NvSys 1, fourBytes.nvRecordExtensionInit shortFlash (fun _ => 0) = some s ∧
    fourBytes.SavedAs s.ram 0 [7, 7, 0, 0] := by
  have hrun : (fourBytes.nvRecordExtensionInit (W := 1) shortFlash fun _ => 0).isSome = true := by decide +kernel
  obtain ⟨s, hs⟩ := Option.isSome_iff_exists.1 hrun
  have hup := (upgrade_iff fourBytes shortFlash (fun _ => 0) .main s (by decide +kernel) (by decide +kernel) hs).2
    (by decide +kernel)
  have hitems : fourBytes.upgraded shortFlash (fun _ => 0) .main = [7, 7, 0, 0] := by decide +kernel
  exact ⟨s, hs, hitems ▸ hup.1⟩

/-- With another initial content they are zero after the boot all the same. -/
theorem appended_zeros : ∃ s : NvSys 1, fourBytes.nvRecordExtensionInit shortFlash (fun _ => 0x5A) = some s ∧
    fourBytes.source shortFlash = some .main ∧ getU32 shortFlash (fourBytes.addr .main + 8) = 2 ∧
    fourBytes.upgraded shortFlash (fun _ => 0x5A) .main = [7, 7, 0x5A, 0x5A] ∧
    fourBytes.items s.ram 0 = [7, 7, 0, 0] ∧ ¬ fourBytes.SavedAs s.ram 0 (fourBytes.upgraded shortFlash (fun _ => 0x5A) .main) := by
  have hrun : ((fourBytes.nvRecordExtensionInit (W := 1) shortFlash fun _ => 0x5A).any fun s =>
      decide (fourBytes.items s.ram 0 = [7, 7, 0, 0])) = true := by decide +kernel
  obtain ⟨s, hs, hitems⟩ := (Option.any_eq_true ..).1 hrun
  have hzeros := of_decide_eq_true hitems
  refine ⟨s, hs, by decide +kernel, by decide +kernel, by decide +kernel, hzeros, fun h => ?_⟩
  have hne : [7, 7, 0, 0] ≠ fourBytes.upgraded shortFlash (fun _ => 0x5A) .main := by decide +kernel
  exact hne (hzeros.symm.trans h.items)

end NvRecord
