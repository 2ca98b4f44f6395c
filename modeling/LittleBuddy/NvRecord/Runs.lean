import LittleBuddy.NvRecord.Flush
/-!
# Runs of the NV record

One event of a run, in terms of the store of two copies that the sectors show:
an event makes at most one step of the store, and a boot takes what the validity
check finds.
-/
open NorMem Norflash TwoCopy

namespace NvRecord

variable {W : Nat} {cfg : Config} {s s' : NvSys W} {L : ModId → List (Slot W)} {o : Option Pc}

/-! ## Which flush is inside -/

/-- The flushes inside `_flush_main` or `_flush_bak`. -/
def inside (l : List Pc) : List Pc := l.filter fun pc => !pc.outside

theorem inside_cons (pc : Pc) (l : List Pc) : inside (pc :: l) = (focusOf (some pc)).toList ++ inside l := by
  by_cases hp : pc.outside = true
  · simp [inside, focusOf_outside hp, hp]
  · simp [inside, focusOf_inside (by simpa using hp), hp]

/-- A step replaces one flush in the list. -/
theorem inside_advance {l : List Pc} {k : Nat} {pc : Pc} (hk : l[k]? = some pc) :
    ∃ a b, inside l = a ++ (focusOf (some pc)).toList ++ b ∧ inside (l.eraseIdx k) = a ++ b ∧
      ∀ next, inside (advance l k next) = a ++ (focusOf next).toList ++ b := by
  obtain ⟨hlt, hget⟩ := List.getElem?_eq_some_iff.1 hk
  have happ : ∀ l₁ l₂ : List Pc, inside (l₁ ++ l₂) = inside l₁ ++ inside l₂ := fun l₁ l₂ => List.filter_append ..
  have herase : inside (l.eraseIdx k) = inside (l.take k) ++ inside (l.drop (k + 1)) := by
    rw [List.eraseIdx_eq_take_drop_succ, happ]
  refine ⟨inside (l.take k), inside (l.drop (k + 1)), ?_, herase, fun next => ?_⟩
  · have hl : l = l.take k ++ pc :: l.drop (k + 1) := by
      rw [← hget, List.getElem_cons_drop, List.take_append_drop]
    conv_lhs => rw [hl, happ, inside_cons]
    rw [List.append_assoc]
  · cases next with
    | none => rw [advance, herase]; simp [focusOf]
    | some pc' => rw [advance, List.set_eq_take_append_cons_drop, if_pos hlt, happ, inside_cons, List.append_assoc]

/-- The invariant of the record, with the only flush inside, if any. -/
structure NvInv (cfg : Config) (s : NvSys W) (L : ModId → List (Slot W)) (o : Option Pc) : Prop where
  core : Core cfg s L o
  focus : inside s.flushes = o.toList

theorem Core.setFlushes (h : Core cfg s L o) (l : List Pc) : Core cfg { s with flushes := l } L o :=
  ⟨h.at_stage, h.fits, h.requested, h.size⟩

/-! ## One step of a flush -/

/-- A step outside enters `_flush_main` or `_flush_bak`, or stays outside. -/
theorem stepFlush_outside {env : FlushEnv} {pc : Pc} {next : Option Pc} (h : Core cfg s L o) (hout : pc.outside = true)
    (hin : pc.enters s = true → o = none) (ht : cfg.stepFlush env pc s = some (next, s')) :
    s' = s ∧ (focusOf next = none ∨ o = none) ∧ (focusOf next ≠ none → Core cfg s L (focusOf next) ∧
      shown cfg s L (focusOf next) = shown cfg s L o) := by
  have hgo : ∀ pc', o = none → pc'.fits s = true → stageAt (some pc') s.state s.written_size = stateStage s.state s.written_size →
      pc' ≠ .bakStartSize → pc' ≠ .bakIfWritten →
      Core cfg s L (some pc') ∧ shown cfg s L (some pc') = shown cfg s L o := by
    rintro pc' rfl hfit hst h₁ h₂
    refine ⟨⟨hst ▸ h.at_stage, fits_some hfit, fun hm => h.requested (by rwa [hst] at hm),
      fun hw _ _ => h.size hw (by simp) (by simp)⟩, ?_⟩
    rw [shown, hst]
    rfl
  cases pc with
  | initEnd =>
    cases ht
    refine ⟨rfl, .inl ?_, ?_⟩ <;> cases s.is_update <;> simp [focusOf, Pc.outside]
  | start a =>
    cases ht
    refine ⟨rfl, .inl ?_, ?_⟩ <;> by_cases hs : (s.state == .idle && !s.is_update) = true <;> simp [hs, focusOf, Pc.outside]
  | selMain a =>
    cases ht
    by_cases hc : s.callsMain = true
    · have ho := hin hc
      refine ⟨rfl, .inr ho, fun _ => ?_⟩
      simp only [hc, if_true]
      cases a
      · exact hgo (.ifErase .main) ho hc rfl (by simp) (by simp)
      · exact hgo .asyncMain ho hc rfl (by simp) (by simp)
    · refine ⟨rfl, .inl ?_, ?_⟩ <;> simp [hc, focusOf, Pc.outside]
  | selBak a =>
    cases ht
    by_cases hc : s.callsBak = true
    · have ho := hin hc
      refine ⟨rfl, .inr ho, fun _ => ?_⟩
      simp only [hc, if_true]
      cases a
      · exact hgo (.ifErase .bak) ho hc rfl (by simp) (by simp)
      · exact hgo .asyncBak ho hc rfl (by simp) (by simp)
    · refine ⟨rfl, .inl ?_, ?_⟩ <;> cases a <;> simp [hc, focusOf, Pc.outside]
  | _ => cases hout

/-- The executed calls of a run: nothing happens to the store, one step, or what the event says. -/
theorem NvInv.of_moves {o' : Option Pc} (h : Moves cfg s L o s' o') {l : List Pc} (hl : inside l = o'.toList) :
    ∃ L' o', NvInv cfg { s' with flushes := l } L' o' ∧
      Refines (shown cfg s L o) (shown cfg { s' with flushes := l } L' o') := by
  obtain ⟨L', hcore, hr⟩ := h
  exact ⟨L', o', ⟨hcore.setFlushes l, hl⟩, hr⟩

/-- A flush inside `_flush_main` or `_flush_bak` is the one of the invariant. -/
theorem NvInv.focus_eq (h : NvInv cfg s L o) {k : Nat} {pc : Pc} (hk : s.flushes[k]? = some pc)
    (hin : pc.outside = false) : o = some pc := by
  have hmem : pc ∈ inside s.flushes := List.mem_filter.2 ⟨List.mem_of_getElem? hk, by simp [hin]⟩
  rw [h.focus] at hmem
  exact Option.mem_toList.1 hmem

/-- One step of the `k`-th flush. -/
theorem run_effect (h : NvInv cfg s L o) {k : Nat} {env : FlushEnv} (hc : cfg.InTurn (.run k env) s)
    (ht : cfg.step (.run k env) s = some s') :
    ∃ L' o', NvInv cfg s' L' o' ∧ (Refines (shown cfg s L o) (shown cfg s' L' o') ∨
      s.flushes[k]? = some .mainClear ∧ shown cfg s' L' o' = (shown cfg s L o).clear ∧
        ((shown cfg s L o).phase = .mainWritten ∨ (shown cfg s L o).phase = .mainDone)) := by
  obtain ⟨pc, hk, ht⟩ := Option.bind_eq_some_iff.1 ht
  obtain ⟨⟨next, s₁⟩, hstep, ht⟩ := Option.bind_eq_some_iff.1 ht
  cases ht
  obtain ⟨a, b, hall, herase, hadv⟩ := inside_advance hk
  rw [h.focus] at hall
  by_cases hout : pc.outside = true
  · rw [focusOf_outside hout] at hall
    have hin : pc.enters s = true → o = none := fun he => by
      have hrest := hc pc (Option.mem_def.2 hk) he
      have hnil : inside (s.flushes.eraseIdx k) = [] := by
        simp only [inside, List.filter_eq_nil_iff]
        exact fun pc' hpc' => by simp [hrest pc' hpc']
      rw [herase] at hnil
      have hempty : o.toList = [] := by rw [hall]; simpa using hnil
      cases o with
      | none => rfl
      | some _ => cases hempty
    obtain ⟨rfl, hor, hgo⟩ := stepFlush_outside h.core hout hin hstep
    by_cases hnext : focusOf next = none
    · refine ⟨L, o, ⟨h.core.setFlushes _, ?_⟩, .inl (.inl rfl)⟩
      rw [hadv, hnext, hall]
    · obtain ⟨hcore, hshown⟩ := hgo hnext
      have ho : o = none := hor.resolve_left hnext
      refine ⟨L, focusOf next, ⟨hcore.setFlushes _, ?_⟩, .inl (.inl hshown)⟩
      have hab : a = [] ∧ b = [] := by simpa [ho] using hall.symm
      rw [hadv, hab.1, hab.2]
      simp
  · have hin : pc.outside = false := by simpa using hout
    obtain rfl := h.focus_eq hk hin
    rw [focusOf_inside hin] at hall
    have hab : a = [] ∧ b = [] := by
      cases a with
      | nil => simpa using hall
      | cons x a => simp at hall
    obtain ⟨rfl, rfl⟩ := hab
    have hfocus : inside (advance s.flushes k next) = (focusOf next).toList := by simp [hadv]
    rcases stepFlush_inside h.core hin hstep with hmove | ⟨rfl, L', hcore, hclear⟩
    · obtain ⟨L', o', hinv, hr⟩ := NvInv.of_moves hmove hfocus
      exact ⟨L', o', hinv, .inl hr⟩
    · refine ⟨L', focusOf next, ⟨hcore.setFlushes _, hfocus⟩, .inr ⟨hk, hclear, ?_⟩⟩
      simp only [shown, view, stageAt, Stage.phase]
      split
      · exact .inr rfl
      · exact .inl rfl

/-! ## Booting -/

/-- The record that `nv_record_set_default` makes. -/
def Config.default (cfg : Config) : List UInt8 := bytes cfg.default_items 0 cfg.valid_len

theorem items_localExtensionData (ram : Nat → UInt8) : cfg.items (cfg.localExtensionData ram) 0 = cfg.items ram 0 := by
  refine List.map_congr_left fun j _ => ?_
  have hput : ∀ (m : Nat → UInt8) (a len : Nat) (data : Nat → UInt8), a + len ≤ headerSize →
      memcpy m a data len (0 + headerSize + j) = m (0 + headerSize + j) := fun m a len data hle =>
    memcpy_other (by unfold InRange; omega)
  simp only [Config.localExtensionData, putU32, putU16]
  rw [hput _ _ _ _ (by decide), hput _ _ _ _ (by decide), hput _ _ _ _ (by decide), hput _ _ _ _ (by decide),
    hput _ _ _ _ (by decide)]

theorem items_memcpy (ram data : Nat → UInt8) :
    cfg.items (memcpy ram headerSize data cfg.valid_len) 0 = bytes data 0 cfg.valid_len := by
  refine List.map_congr_left fun j hj => ?_
  have hj' : j < cfg.valid_len := List.mem_range.1 hj
  rw [memcpy_of (by unfold InRange; omega)]
  congr 1
  omega

theorem items_load (ram : Nat → UInt8) (flash : Mem) (c : Copy) :
    cfg.items (cfg.setCrc (memcpy ram headerSize (fun j => flash (cfg.addr c + headerSize + j)) cfg.valid_len)) 0 =
      cfg.items flash (cfg.addr c) := by
  rw [items_setCrc, items_memcpy]
  exact List.map_congr_left fun j _ => by rw [Nat.zero_add]

theorem items_default (ram : Nat → UInt8) : cfg.items (cfg.nvRecordSetDefault ram) 0 = cfg.default := by
  rw [Config.nvRecordSetDefault, items_setCrc, items_localExtensionData, items_memcpy]
  rfl

theorem bootDev (flash : Mem) : DevInv cfg (W := W)
    ⟨(norflashApiRegister cfg.registration (initial W flash).api).2, flash⟩ fun _ => [] := by
  obtain ⟨hi, hp, -⟩ := Sys.register_inStep (inStep_initial (W := W) flash (SectorInv.initial flash))
    (r := cfg.registration) rfl
  refine ⟨hi, fun c m _ => ?_⟩
  rfl

/-- After a boot the store is what the validity check has found. -/
theorem nvRecordExtensionInit_spec {flash : Mem} {ram : Nat → UInt8} (ht : cfg.nvRecordExtensionInit flash ram = some s) :
    NvInv cfg s (fun _ => []) none ∧ s.dev.api.hal.flash = flash ∧ shown cfg s (fun _ => []) none =
      TwoCopy.boot cfg.default (cfg.record flash (cfg.addr .main)) (cfg.record flash (cfg.addr .bak)) := by
  have hdev : DevInv cfg (W := W) _ _ := bootDev flash
  obtain ⟨-, -, hhal⟩ := Sys.register_inStep (inStep_initial (W := W) flash (SectorInv.initial flash))
    (r := cfg.registration) rfl
  have hflash : (norflashApiRegister cfg.registration (initial W flash).api).2.hal.flash = flash := by rw [hhal]; rfl
  unfold Config.nvRecordExtensionInit at ht
  simp only at ht
  split at ht
  · have hrec : ∀ c, cfg.record flash (cfg.addr c) =
        if cfg.nvRecordDataIsValid flash (cfg.addr c) then some (cfg.items flash (cfg.addr c)) else none := fun _ => rfl
    cases hm : cfg.nvRecordDataIsValid flash (cfg.addr .main) <;>
      cases hb : cfg.nvRecordDataIsValid flash (cfg.addr .bak) <;> rw [hm, hb] at ht <;> cases ht
    · refine ⟨⟨⟨⟨hdev, rfl⟩, by simp, by simp [stageAt, stateStage], by simp⟩, rfl⟩, hflash, ?_⟩
      simp [shown, view, stageAt, stateStage, Stage.phase, boot, recovered, hrec, hm, hb, items_default]
    · refine ⟨⟨⟨⟨hdev, rfl⟩, by simp, by simp [stageAt, stateStage], by simp⟩, rfl⟩, hflash, ?_⟩
      simp [shown, view, stageAt, stateStage, Stage.phase, boot, recovered, hrec, hm, hb, items_load]
    · refine ⟨⟨⟨⟨hdev, rfl, by simp [hrec, hm]⟩, by simp, by simp [stageAt, stateStage], by simp⟩, rfl⟩, hflash, ?_⟩
      simp [shown, view, stageAt, stateStage, Stage.phase, boot, recovered, hrec, hm, hb, items_load]
    · refine ⟨⟨⟨⟨hdev, rfl⟩, by simp, by simp [stageAt, stateStage], by simp⟩, rfl⟩, hflash, ?_⟩
      simp [shown, view, stageAt, stateStage, Stage.phase, boot, recovered, hrec, hm, hb, items_load]
  · cases ht

/-! ## Events -/

theorem Stage.Ok.main_quiet {st : Stage} {d : Mem} {q : List QNode} (h : st.Ok cfg d q) (h₁ : st.phase q ≠ .mainErased)
    (h₂ : st.phase q ≠ .mainWritten) : secOps (cfg.addr .main) q = [] := by
  cases st with
  | rest => exact secOps_eq_nil.2 (by rw [show q = [] from h]; simp)
  | mainErased => exact absurd rfl h₁
  | mainWritten =>
    cases q with
    | nil => rfl
    | cons n q => exact absurd rfl h₂
  | mainDone => rw [h.1, secOps_nil]
  | bakErased n => exact h.1 _ cfg.main_ne_bak
  | bakDone => rw [h.1, secOps_nil]

theorem Stage.Ok.bak_quiet {st : Stage} {d : Mem} {q : List QNode} (h : st.Ok cfg d q) (h₁ : st.phase q ≠ .bakErased) :
    secOps (cfg.addr .bak) q = [] := by
  cases st with
  | rest => exact secOps_eq_nil.2 (by rw [show q = [] from h]; simp)
  | mainErased => exact h.1 _ cfg.main_ne_bak.symm
  | mainWritten => exact h.1 _ cfg.main_ne_bak.symm
  | mainDone => rw [h.1, secOps_nil]
  | bakErased n => exact absurd rfl h₁
  | bakDone => exact absurd rfl h₁

/-- A sector without pending operations holds what direct execution gives. -/
theorem NvInv.record_flash (h : NvInv cfg s L o) {c : Copy} (hq : secOps (cfg.addr c) (nvQueue s.dev L) = []) :
    cfg.record s.dev.api.hal.flash (cfg.addr c) = cfg.record s.dev.direct (cfg.addr c) := by
  have hs : SameBytes extensionSize s.dev.api.hal.flash (cfg.addr c) s.dev.direct (cfg.addr c) :=
    fun j hj => h.core.at_stage.inv.flash_eq hq hj
  exact hs.record_eq

/-- What the validity check finds after a power cut. -/
theorem NvInv.found (h : NvInv cfg s L o) : Found (shown cfg s L o)
    (cfg.record s.dev.api.hal.flash (cfg.addr .main)) (cfg.record s.dev.api.hal.flash (cfg.addr .bak)) where
  main h₁ h₂ := h.record_flash (h.core.at_stage.ok.main_quiet h₁ h₂)
  bak h₁ := h.record_flash (h.core.at_stage.ok.bak_quiet h₁)

/-- The record of a completed main sector: nothing of the module is pending on it. -/
def Config.mainComplete (cfg : Config) (s : NvSys W) : Option (List UInt8) :=
  if (pendingSlots s.dev.api nvMod).all fun l => l.all fun i => (s.dev.api.pool.node i).addr != cfg.addr .main then
    cfg.record s.dev.api.hal.flash (cfg.addr .main)
  else none

/-- A queue for the main sector only is empty if nothing is pending on that sector. -/
theorem OnlySec.eq_nil {a : Nat} {q : List QNode} (h : OnlySec a q) (ha : secOps a q = []) : q = [] := by
  cases q with
  | nil => rfl
  | cons n q =>
    have hn : secOps n.addr (n :: q) ≠ [] := by simp [secOps_cons]
    by_cases he : n.addr = a
    · exact absurd (he ▸ ha) hn
    · exact absurd (h _ he) hn

theorem NvInv.mainComplete (h : NvInv cfg s L o) : cfg.mainComplete s = (shown cfg s L o).settled := by
  have hpend : ((pendingSlots s.dev.api nvMod).all fun l => l.all fun i =>
      (s.dev.api.pool.node i).addr != cfg.addr .main) = true ↔ secOps (cfg.addr .main) (nvQueue s.dev L) = [] := by
    rw [pendingSlots_of h.core.at_stage.inv.in_step.sys, secOps_eq_nil]
    simp [nvQueue, queues]
  have hok := h.core.at_stage.ok
  unfold Config.mainComplete
  simp only [shown, Store.settled, view]
  by_cases hq : secOps (cfg.addr .main) (nvQueue s.dev L) = []
  · rw [if_pos (hpend.2 hq), h.record_flash hq]
    generalize stageAt o s.state s.written_size = st at hok ⊢
    cases st with
    | mainErased => exact record_erased hok.2
    | mainWritten =>
      have hnil := hok.1.eq_nil hq
      simp [Stage.phase, hnil]
    | _ => rfl
  · rw [if_neg fun hn => hq (hpend.1 hn)]
    generalize stageAt o s.state s.written_size = st at hok ⊢
    cases st with
    | mainErased => rfl
    | mainWritten =>
      have hne : (nvQueue s.dev L).isEmpty = false := by
        rw [List.isEmpty_eq_false_iff]
        exact fun hnil => hq (by rw [hnil, secOps_nil])
      simp [Stage.phase, hne]
    | rest => exact absurd (secOps_eq_nil.2 (by rw [show nvQueue s.dev L = [] from hok]; simp)) hq
    | mainDone => exact absurd (by rw [hok.1, secOps_nil]) hq
    | bakErased n => exact absurd (hok.1 _ cfg.main_ne_bak) hq
    | bakDone => exact absurd (by rw [hok.1, secOps_nil]) hq

theorem fits_request {pc : Pc} (h : pc.fits s = true) : pc.fits { s with is_update := true, awaiting := false } = true := by
  have hmain : s.callsMain = true → NvSys.callsMain { s with is_update := true, awaiting := false } = true := fun hc => by
    cases hs : s.state <;> simp_all [NvSys.callsMain]
  cases pc with
  | asyncMain => exact hmain h
  | ifErase c => cases c <;> first | exact hmain h | exact h
  | erase c => cases c <;> simp_all [Pc.fits]
  | eraseFlush c => cases c <;> simp_all [Pc.fits]
  | eraseFree c => cases c <;> simp_all [Pc.fits]
  | setErased c => cases c <;> simp_all [Pc.fits]
  | ifWrite c => cases c <;> exact h
  | writeFlush c => cases c <;> exact h
  | writeFree c => cases c <;> exact h
  | drain c => cases c <;> exact h
  | drainCheck c => cases c <;> exact h
  | setDone c => cases c <;> exact h
  | _ => exact h

/-- What an event does to the store. -/
def Effect (cfg : Config) (s s' : NvSys W) (a b : Store (List UInt8)) : Event → Prop
  | .mutate _ => b = a.mutate (cfg.items s'.ram 0)
  | .update => b = a.request
  | .call _ | .other _ => Refines a b
  | .run k _ => Refines a b ∨ s.flushes[k]? = some .mainClear ∧ b = a.clear ∧
      (a.phase = .mainWritten ∨ a.phase = .mainDone)
  | .boot _ => b = TwoCopy.boot cfg.default (cfg.record s.dev.api.hal.flash (cfg.addr .main))
      (cfg.record s.dev.api.hal.flash (cfg.addr .bak))

theorem step_effect (h : NvInv cfg s L o) {e : Event} (hc : cfg.InTurn e s) (ht : cfg.step e s = some s') :
    ∃ L' o', NvInv cfg s' L' o' ∧ Effect cfg s s' (shown cfg s L o) (shown cfg s' L' o') e := by
  cases e with
  | mutate f =>
    cases ht
    exact ⟨L, o, ⟨⟨h.core.at_stage, h.core.fits, h.core.requested, h.core.size⟩, h.focus⟩, rfl⟩
  | update =>
    cases ht
    exact ⟨L, o, ⟨⟨h.core.at_stage, fun pc hpc => fits_request (h.core.fits pc hpc), fun _ => rfl, h.core.size⟩, h.focus⟩, rfl⟩
  | call a =>
    cases ht
    refine ⟨L, o, ⟨h.core.setFlushes _, ?_⟩, .inl rfl⟩
    have : inside (s.flushes ++ [.start a]) = inside s.flushes := by simp [inside, Pc.outside]
    exact this.trans h.focus
  | run k env => exact run_effect h hc ht
  | other e =>
    obtain ⟨dev', hrun, ht⟩ := Option.bind_eq_some_iff.1 ht
    cases ht
    obtain ⟨L', hdev, hd, hf⟩ := h.core.at_stage.inv.other hc.1 hc.2 hrun
    obtain ⟨L', hcore, hr⟩ := Moves.of_leads (p := o) (h.core.at_stage.device hdev hd hf).leads h.core.fits h.core.requested
      h.core.size
    exact ⟨L', o, ⟨hcore, h.focus⟩, hr⟩
  | boot ram =>
    obtain ⟨hinv, -, hshown⟩ := nvRecordExtensionInit_spec ht
    exact ⟨_, _, hinv, hshown⟩

end NvRecord
