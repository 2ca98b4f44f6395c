import LittleBuddy.Apps.Battery
import LittleBuddy.Lib.Runs
import Mathlib.Algebra.Order.Group.Unbundled.Int
/-!
# The battery's level

The level is set by the first samples in `app_battery_irqhandler`, and after
these by the handler of the battery's mails, which also reports it.
-/
open Runs

namespace Apps.Battery

/-! ## The code -/

/-- `APP_BATTERY_CHARGER_T`, in the mails of a charger. -/
abbrev plugout : UInt16 := 0

abbrev plugin : UInt16 := 1

/-- `app_battery_measure` and the mails. What was reported has the voltage that it is derived from beside it, and so
has the level. -/
structure System where
  measure : Measure
  mails : List Event
  reports : List (Nat × UInt8)
  levelVolt : Nat

/-- Behind `app_battery_open`. -/
def start (plugged : Bool) : System where
  measure := appBatteryOpen plugged
  mails := []
  reports := []
  levelVolt := maxMv

/-- The level of a voltage that is not one of the first samples. -/
def normalLevel (volt : UInt16) : UInt8 := limitLevel (int8 (((volt.toNat : Int) - pdMv).tdiv mvBase))

/-- `app_battery_handle_process_normal`; `reset` is `CHARGER_PLUGINOUT_RESET`. -/
def appBatteryHandleProcessNormal (reset : Bool) (status : Status) (prams : UInt16) (s : System) : System :=
  match status with
  | .undervolt | .normal | .overvolt =>
    { s with
      measure := { s.measure with currvolt := prams, currlevel := normalLevel prams }
      reports := s.reports ++ [(prams.toNat, normalLevel prams)]
      levelVolt := prams.toNat }
  | .charging => if prams = plugin ∧ reset = false then { s with measure := { s.measure with status := .charging } } else s
  | .pdvolt | .pluginout | .invalid => s

/-- `app_battery_handle_process_charging`; the voltage itself is reported. -/
def appBatteryHandleProcessCharging (reset : Bool) (status : Status) (prams : UInt16) (s : System) : System :=
  match status with
  | .overvolt | .normal | .undervolt =>
    { s with
      measure := { s.measure with currvolt := prams }
      reports := s.reports ++ [(prams.toNat, prams.toUInt8)] }
  | .charging => if prams = plugout ∧ reset = false then { s with measure := { s.measure with status := .normal } } else s
  | .pdvolt | .pluginout | .invalid => s

/-- `app_battery_handle_process`. -/
def appBatteryHandleProcess (reset : Bool) (mail : Event) (s : System) : System :=
  if mail.1 = .pluginout then s
  else
    match s.measure.status with
    | .normal => appBatteryHandleProcessNormal reset mail.1 mail.2 s
    | .charging => appBatteryHandleProcessCharging reset mail.1 mail.2 s
    | .overvolt | .undervolt | .pdvolt | .pluginout | .invalid => s

/-- What can happen. -/
inductive Occurrence where
  /-- `app_battery_irqhandler`. -/
  | sample (vbat : UInt16)
  /-- `app_battery_charger_handler`. -/
  | charger (prams : UInt16)
  /-- `app_battery_pluginout_debounce_handler`, once the charger's state is stable. -/
  | debounced (prams : UInt16)
  /-- The next mail is handled. -/
  | handle

/-- The voltage behind the level when a sample was taken: the first samples set the level. -/
def sampleVolt (vbat : UInt16) (s : System) : Nat :=
  if vbat = badValue ∨ stableCount < (s.measure.store vbat).index.toNat then s.levelVolt else vbat.toNat * 4

def step (reset : Bool) : Occurrence → System → Option System
  | .sample vbat, s =>
    let (measure, events) := appBatteryIrqhandler vbat s.measure
    some { s with measure := measure, mails := s.mails ++ events, levelVolt := sampleVolt vbat s }
  | .charger prams, s => some { s with mails := s.mails ++ [(.pluginout, prams)] }
  | .debounced prams, s => some { s with mails := s.mails ++ [(.charging, prams)] }
  | .handle, s =>
    match s.mails with
    | [] => none
    | mail :: mails => some (appBatteryHandleProcess reset mail { s with mails := mails })

/-! ## What the level should be -/

/-- The level of a voltage, over the integers. -/
def levelOf (volt : Nat) : Int := max 0 (min (levelMax : Int) (((volt : Int) - pdMv) / mvBase))

/-- The level and all reports are those of their voltages. -/
structure LevelRight (s : System) : Prop where
  level : (s.measure.currlevel.toNat : Int) = levelOf s.levelVolt
  reports : ∀ r ∈ s.reports, (r.2.toNat : Int) = levelOf r.1

/-- The largest voltage whose level fits in an `int8_t` before it is limited. -/
abbrev maxLevelMv : Nat := pdMv + 128 * mvBase - 1

/-- One of the first samples is at the power-down limit or above and not too large; a voltage is not handled while
charging, and is not too large. -/
def Mappable : Occurrence → System → Prop
  | .sample vbat, s =>
    vbat = badValue ∨ stableCount < (s.measure.store vbat).index.toNat ∨ pdMv ≤ vbat.toNat * 4 ∧ vbat.toNat * 4 ≤ maxLevelMv
  | .handle, s => ∀ mail ∈ s.mails.head?, mail.1 = .undervolt ∨ mail.1 = .normal ∨ mail.1 = .overvolt →
      s.measure.status ≠ .charging ∧ mail.2.toNat ≤ maxLevelMv
  | .charger _, _ | .debounced _, _ => True

instance (e : Occurrence) (s : System) : Decidable (Mappable e s) :=
  match e with
  | .sample vbat => inferInstanceAs (Decidable (vbat = badValue ∨ stableCount < (s.measure.store vbat).index.toNat ∨
      pdMv ≤ vbat.toNat * 4 ∧ vbat.toNat * 4 ≤ maxLevelMv))
  | .handle => inferInstanceAs (Decidable (∀ mail ∈ s.mails.head?, mail.1 = .undervolt ∨ mail.1 = .normal ∨ mail.1 = .overvolt →
      s.measure.status ≠ .charging ∧ mail.2.toNat ≤ maxLevelMv))
  | .charger _ | .debounced _ => isTrue trivial

section Levels

variable {s s' : System} {vbat : UInt16} {reset : Bool} {volt : Nat}

theorem limitLevel_toNat (level : Int) : ((limitLevel level).toNat : Int) = max 0 (min (levelMax : Int) level) := by
  have hmax : ((levelMax : Nat) : Int) = 9 := rfl
  rw [limitLevel, hmax]
  by_cases hneg : level < 0
  · simp only [if_pos hneg]
    rw [if_neg (by decide)]
    change (0 : Int) = _
    omega
  simp only [if_neg hneg]
  by_cases hlarge : level > 9
  · rw [if_pos hlarge]
    change (9 : Int) = _
    omega
  · rw [if_neg hlarge, UInt8.toNat_ofNat_of_lt' (by change _ < 256; omega)]
    omega

/-- A quotient that an `int8_t` holds is not changed. -/
theorem int8_eq {n : Int} (hlow : -128 ≤ n) (hhigh : n ≤ 127) : int8 n = n := by
  rw [int8]
  exact Int.bmod_eq_of_le (by omega) (by omega)

theorem firstLevel_eq (hlow : pdMv ≤ volt) (hhigh : volt ≤ maxLevelMv) : ((firstLevel volt).toNat : Int) = levelOf volt := by
  have hlow : 3100 ≤ volt := hlow
  have hhigh : volt ≤ 17179 := hhigh
  have hwrap : (volt + 2 ^ 32 - pdMv) % 2 ^ 32 = volt - 3100 := by
    rw [show volt + 2 ^ 32 - pdMv = volt - 3100 + 2 ^ 32 by change volt + 2 ^ 32 - 3100 = _; omega, Nat.add_mod_right]
    exact Nat.mod_eq_of_lt (by omega)
  have hdiv : (((volt - 3100) / mvBase : Nat) : Int) = ((volt : Int) - pdMv) / mvBase := by
    rw [Int.natCast_ediv, Int.natCast_sub hlow]
  have hquot : (volt - 3100) / mvBase ≤ 127 := by
    change (volt - 3100) / 110 ≤ 127
    omega
  rw [firstLevel, hwrap, limitLevel_toNat, levelOf, ← hdiv]
  generalize (volt - 3100) / mvBase = quot at hquot ⊢
  rw [int8_eq (by omega) (by omega)]

theorem normalLevel_eq {volt : UInt16} (hhigh : volt.toNat ≤ maxLevelMv) : ((normalLevel volt).toNat : Int) = levelOf volt.toNat := by
  have hhigh : volt.toNat ≤ 17179 := hhigh
  have hpd : ((pdMv : Nat) : Int) = 3100 := rfl
  have hbase : ((mvBase : Nat) : Int) = 110 := rfl
  have hmax : ((levelMax : Nat) : Int) = 9 := rfl
  rw [normalLevel, limitLevel_toNat, levelOf, hpd, hbase, hmax]
  rcases Int.lt_or_le (volt.toNat : Int) 3100 with hbelow | habove
  · -- rounded towards zero, or down: both are zero once limited
    obtain ⟨d, hd⟩ : ∃ d : Nat, (volt.toNat : Int) - 3100 = -(d : Int) := ⟨3100 - volt.toNat, by omega⟩
    rw [hd, Int.neg_tdiv, Int.tdiv_eq_ediv_of_nonneg (Int.natCast_nonneg d), int8_eq (by omega) (by omega)]
    omega
  · rw [Int.tdiv_eq_ediv_of_nonneg (by omega), int8_eq (by omega) (by omega)]

/-- A level that is set, and its report. -/
theorem appBatteryHandleProcessNormal_right (h : LevelRight s) {status : Status} {prams : UInt16}
    (hmap : status = .undervolt ∨ status = .normal ∨ status = .overvolt → prams.toNat ≤ maxLevelMv) :
    LevelRight (appBatteryHandleProcessNormal reset status prams s) := by
  have hvolt (hstatus : status = .undervolt ∨ status = .normal ∨ status = .overvolt) :
      LevelRight { s with
        measure := { s.measure with currvolt := prams, currlevel := normalLevel prams }
        reports := s.reports ++ [(prams.toNat, normalLevel prams)]
        levelVolt := prams.toNat } := by
    have hlevel : ((normalLevel prams).toNat : Int) = levelOf prams.toNat := normalLevel_eq (hmap hstatus)
    refine ⟨hlevel, fun r hr => ?_⟩
    rcases List.mem_append.mp hr with hold | hnew
    · exact h.reports r hold
    · rw [List.mem_singleton.mp hnew]
      exact hlevel
  cases status with
  | undervolt => exact hvolt (.inl rfl)
  | normal => exact hvolt (.inr (.inl rfl))
  | overvolt => exact hvolt (.inr (.inr rfl))
  | charging =>
    rw [appBatteryHandleProcessNormal]
    split
    · exact ⟨h.level, h.reports⟩
    · exact h
  | pdvolt => exact h
  | pluginout => exact h
  | invalid => exact h

/-- A charger's mail, and any other that has no voltage, leaves the level and the reports. -/
theorem appBatteryHandleProcessCharging_right (h : LevelRight s) {status : Status} {prams : UInt16}
    (hmap : ¬(status = .undervolt ∨ status = .normal ∨ status = .overvolt)) :
    LevelRight (appBatteryHandleProcessCharging reset status prams s) := by
  cases status with
  | undervolt => exact absurd (.inl rfl) hmap
  | normal => exact absurd (.inr (.inl rfl)) hmap
  | overvolt => exact absurd (.inr (.inr rfl)) hmap
  | charging =>
    rw [appBatteryHandleProcessCharging]
    split
    · exact ⟨h.level, h.reports⟩
    · exact h
  | pdvolt => exact h
  | pluginout => exact h
  | invalid => exact h

theorem appBatteryHandleProcess_right (h : LevelRight s) {mail : Event}
    (hmap : mail.1 = .undervolt ∨ mail.1 = .normal ∨ mail.1 = .overvolt →
      s.measure.status ≠ .charging ∧ mail.2.toNat ≤ maxLevelMv) :
    LevelRight (appBatteryHandleProcess reset mail s) := by
  rw [appBatteryHandleProcess]
  split
  · exact h
  cases hstatus : s.measure.status with
  | normal => exact appBatteryHandleProcessNormal_right h fun hvolt => (hmap hvolt).2
  | charging => exact appBatteryHandleProcessCharging_right h fun hvolt => (hmap hvolt).1 hstatus
  | overvolt => exact h
  | undervolt => exact h
  | pdvolt => exact h
  | pluginout => exact h
  | invalid => exact h

/-- What one step keeps. -/
theorem step_right {e : Occurrence} (h : LevelRight s) (hmap : Mappable e s) (hstep : step reset e s = some s') :
    LevelRight s' := by
  cases e with
  | sample vbat =>
    cases Option.some_inj.mp hstep
    refine ⟨?_, h.reports⟩
    change ((appBatteryIrqhandler vbat s.measure).1.currlevel.toNat : Int) = levelOf (sampleVolt vbat s)
    rw [irqhandler_level, sampleVolt]
    split
    · exact h.level
    · rename_i hfirst
      rcases hmap with hbad | hfull | ⟨hlow, hhigh⟩
      · exact absurd (.inl hbad) hfirst
      · exact absurd (.inr hfull) hfirst
      · exact firstLevel_eq hlow hhigh
  | charger prams =>
    cases Option.some_inj.mp hstep
    exact ⟨h.level, h.reports⟩
  | debounced prams =>
    cases Option.some_inj.mp hstep
    exact ⟨h.level, h.reports⟩
  | handle =>
    rw [step] at hstep
    split at hstep
    · cases hstep
    · rename_i mail mails hmails
      cases Option.some_inj.mp hstep
      have hmap : mail.1 = .undervolt ∨ mail.1 = .normal ∨ mail.1 = .overvolt → _ := hmap mail (by rw [hmails]; rfl)
      exact appBatteryHandleProcess_right (s := { s with mails := mails }) ⟨h.level, h.reports⟩ hmap

end Levels

/-- In a run whose voltages can all be mapped, the level and all reports are those of their voltages. -/
theorem level_right_of_run {reset plugged : Bool} {s : System} {es : List Occurrence}
    (h : Run (step reset) Mappable (· = start plugged) s es) : LevelRight s := by
  refine h.inv LevelRight ?_ fun e s s' hright hmap hstep => step_right hright hmap hstep
  rintro s rfl
  have hopen : (((appBatteryOpen plugged).currlevel).toNat : Int) = levelOf maxMv := (by decide : (9 : Int) = levelOf maxMv)
  exact ⟨hopen, List.forall_mem_nil _⟩

/-- Six samples of 4000 mV, and the mail of the last of them. -/
theorem level_right_of_run_4000 :
    ∃ s, Run (step true) Mappable (· = start false) s (List.replicate 6 (.sample 1000) ++ [.handle]) ∧
      s.reports = [(4000, 8)] ∧ LevelRight s := by
  obtain ⟨s, hrun, hgood⟩ := exists_run_of_check (step true) Mappable (· = start false) (some (start false))
    (List.replicate 6 (.sample 1000) ++ [.handle]) (fun s => decide (s.reports = [(4000, 8)]))
    (fun _ h => (Option.some_inj.mp h).symm) (by decide +kernel)
  exact ⟨s, hrun, of_decide_eq_true hgood, level_right_of_run hrun⟩

/-- A first sample of 3080 mV sets the largest level. -/
theorem full_below_pd : ∃ s, Run (step true) (fun _ _ => True) (· = start false) s [.sample 770] ∧
    s.measure.currlevel = 9 ∧ ¬LevelRight s := by
  obtain ⟨s, hrun, hgood⟩ := exists_run_of_check (step true) (fun _ _ => True) (· = start false) (some (start false))
    [.sample 770] (fun s => decide (s.measure.currlevel = 9 ∧ s.levelVolt = 3080))
    (fun _ h => (Option.some_inj.mp h).symm) (by decide +kernel)
  obtain ⟨hlevel, hvolt⟩ := of_decide_eq_true hgood
  refine ⟨s, hrun, hlevel, fun hright => ?_⟩
  have hspec := hright.level
  rw [hlevel, hvolt] at hspec
  exact absurd hspec (by decide)

end Apps.Battery
