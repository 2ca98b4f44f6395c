import LittleBuddy.Lib.Window
/-!
# The battery's voltage

`app_battery_irqhandler` of `apps/battery/app_battery.cpp` takes the samples of
the battery's voltage: the first ones set the level at once, and from then on
each one reports the mean of the latest five.
-/
open Window

namespace Apps.Battery

/-! ## The code -/

/-- `APP_BATTERY_STATUS_T`. -/
inductive Status where
  | normal
  | charging
  | overvolt
  | undervolt
  | pdvolt
  | pluginout
  | invalid
  deriving DecidableEq

/-- `HAL_GPADC_BAD_VALUE`. -/
abbrev badValue : UInt16 := 0xFFFF

/-- `APP_BATTERY_PD_MV`, `APP_BATTERY_MIN_MV` and `APP_BATTERY_MAX_MV`. -/
abbrev pdMv : Nat := 3100

abbrev minMv : Nat := 3200

abbrev maxMv : Nat := 4200

/-- `APP_BATTERY_LEVEL_MAX`. -/
abbrev levelMax : Nat := 9

/-- `APP_BATTERY_MV_BASE`. -/
abbrev mvBase : Nat := (maxMv - pdMv) / (levelMax + 1)

/-- `APP_BATTERY_STABLE_COUNT`. -/
abbrev stableCount : Nat := 5

/-- `app_battery_measure`, as far as the voltage and the level go. -/
structure Measure where
  status : Status
  currlevel : UInt8
  currvolt : UInt16
  lowvolt : UInt16
  highvolt : UInt16
  pdvolt : UInt16
  voltage : Fin stableCount → UInt16
  index : UInt16

/-- `app_battery_open`, with or without a charger; `voltage` and `index` are zero from the start. -/
def appBatteryOpen (plugged : Bool) : Measure where
  status := if plugged then .charging else .normal
  currlevel := UInt8.ofNat levelMax
  currvolt := UInt16.ofNat maxMv
  lowvolt := UInt16.ofNat minMv
  highvolt := UInt16.ofNat maxMv
  pdvolt := UInt16.ofNat pdMv
  voltage _ := 0
  index := 0

/-- The `int8_t` of a number. -/
def int8 (n : Int) : Int := n.bmod 256

/-- A level between `APP_BATTERY_LEVEL_MIN` and `APP_BATTERY_LEVEL_MAX`. -/
def limitLevel (level : Int) : UInt8 :=
  let level := if level < 0 then 0 else level
  if level > (levelMax : Int) then UInt8.ofNat levelMax else UInt8.ofNat level.toNat

/-- The level of the first samples, from an `uint32_t`. -/
def firstLevel (meanBattVolt : Nat) : UInt8 := limitLevel (int8 (((meanBattVolt + 2 ^ 32 - pdMv) % 2 ^ 32 / mvBase : Nat) : Int))

/-- The status of a mean voltage. -/
def meanStatus (m : Measure) (meanBattVolt : Nat) : Status :=
  if m.highvolt.toNat < meanBattVolt then .overvolt
  else if m.pdvolt.toNat < meanBattVolt ∧ meanBattVolt < m.lowvolt.toNat then .undervolt
  else if meanBattVolt < m.pdvolt.toNat then .pdvolt
  else .normal

/-- A battery event: its status and its voltage. -/
abbrev Event := Status × UInt16

/-- `vbat<<2`, as it is kept. -/
def kept (vbat : UInt16) : UInt16 := vbat <<< 2

/-- A sample goes into `voltage`. -/
def Measure.store (vbat : UInt16) (m : Measure) : Measure :=
  { m with voltage := Function.update m.voltage (Fin.ofNat stableCount m.index.toNat) (kept vbat), index := m.index + 1 }

/-- `meanBattVolt`, when there are enough samples. -/
def Measure.meanVoltage (m : Measure) : Nat := (∑ i, (m.voltage i).toNat) / stableCount

/-- `app_battery_irqhandler`, with its calls of `cb`. -/
def appBatteryIrqhandler (vbat : UInt16) (m : Measure) : Measure × List Event :=
  if vbat = badValue then (m, [(.invalid, vbat)])
  else
    let m := m.store vbat
    if stableCount < m.index.toNat then (m, [(meanStatus m m.meanVoltage, UInt16.ofNat m.meanVoltage)])
    else
      let meanBattVolt := vbat.toNat * 4
      ({ m with currvolt := UInt16.ofNat meanBattVolt, currlevel := firstLevel meanBattVolt }, [])

/-! ## The mean of the latest samples -/

/-- The measure behind these samples. -/
def after (plugged : Bool) (samples : List UInt16) : Measure :=
  samples.foldl (fun m vbat => (appBatteryIrqhandler vbat m).1) (appBatteryOpen plugged)

/-- The latest samples. -/
def latest (samples : List UInt16) : List UInt16 := samples.reverse.take stableCount

/-- Their mean, times 4. -/
def mean (samples : List UInt16) : Nat := ((latest samples).map fun vbat => 4 * vbat.toNat).sum / stableCount

/-- The status that a mean voltage should have. -/
def rightStatus (volt : Nat) : Status :=
  if maxMv < volt then .overvolt else if volt ≤ pdMv then .pdvolt else if volt < minMv then .undervolt else .normal

/-- The last of the samples makes one event, with the mean of the latest and its status. -/
def EventRight (plugged : Bool) (samples : List UInt16) (vbat : UInt16) : Prop :=
  ∃ volt, (appBatteryIrqhandler vbat (after plugged samples)).2 = [(rightStatus (mean (samples ++ [vbat])), volt)] ∧
    volt.toNat = mean (samples ++ [vbat])

/-- The counter of the samples has not just wrapped, the samples fit in 16 bits times 4, and their mean is not
the power-down limit. -/
def Regular (samples : List UInt16) : Prop :=
  stableCount < samples.length % 2 ^ 16 ∧ (∀ vbat ∈ latest samples, vbat.toNat < 2 ^ 14) ∧ mean samples ≠ pdMv

section Means

variable {m : Measure} {plugged : Bool} {samples : List UInt16} {vbat : UInt16}

/-- The samples as they are kept. -/
def Measure.slots (m : Measure) : Slots UInt16 stableCount := ⟨m.index.toNat, m.voltage⟩

/-- The three limits. -/
def Measure.limits (m : Measure) : UInt16 × UInt16 × UInt16 := (m.lowvolt, m.highvolt, m.pdvolt)

theorem slots_mk (status : Status) (level : UInt8) (volt low high pd index : UInt16) (voltage : Fin stableCount → UInt16) :
    (Measure.mk status level volt low high pd voltage index).slots = ⟨index.toNat, voltage⟩ := rfl

theorem level_mk (status : Status) (level : UInt8) (volt low high pd index : UInt16) (voltage : Fin stableCount → UInt16) :
    (Measure.mk status level volt low high pd voltage index).currlevel = level := rfl

theorem limits_mk (status : Status) (level : UInt8) (volt low high pd index : UInt16) (voltage : Fin stableCount → UInt16) :
    (Measure.mk status level volt low high pd voltage index).limits = (low, high, pd) := rfl

theorem store_slots (vbat : UInt16) (m : Measure) : (m.store vbat).slots = m.slots.push (2 ^ 16) (kept vbat) := by
  have hindex : (m.index + 1).toNat = (m.index.toNat + 1) % 2 ^ 16 := by rw [UInt16.toNat_add, UInt16.toNat_one]
  rw [Measure.store, slots_mk, hindex]
  rfl

theorem store_limits (vbat : UInt16) (m : Measure) : (m.store vbat).limits = m.limits := by
  rw [Measure.store, limits_mk]
  rfl

theorem irqhandler_slots (hvalid : vbat ≠ badValue) : (appBatteryIrqhandler vbat m).1.slots = (m.store vbat).slots := by
  rw [appBatteryIrqhandler, if_neg hvalid]
  simp only
  split
  · rfl
  · rw [slots_mk]
    rfl

theorem after_snoc (plugged : Bool) (samples : List UInt16) (vbat : UInt16) :
    after plugged (samples ++ [vbat]) = (appBatteryIrqhandler vbat (after plugged samples)).1 := by
  rw [after, List.foldl_append]
  rfl

theorem after_slots (plugged : Bool) (hvalid : ∀ vbat ∈ samples, vbat ≠ badValue) :
    (after plugged samples).slots = (appBatteryOpen plugged).slots.pushAll (2 ^ 16) (samples.map kept) := by
  induction samples using List.reverseRecOn with
  | nil => rfl
  | append_singleton samples vbat ih =>
    have hlast : vbat ≠ badValue := hvalid vbat (List.mem_append_right _ (List.mem_singleton_self _))
    rw [after_snoc, irqhandler_slots hlast, store_slots, ih fun v hv => hvalid v (List.mem_append_left _ hv), List.map_append,
      List.map_singleton, pushAll_snoc]

theorem irqhandler_limits (vbat : UInt16) (m : Measure) : (appBatteryIrqhandler vbat m).1.limits = m.limits := by
  rw [appBatteryIrqhandler]
  split
  · rfl
  · simp only
    split
    · exact store_limits vbat m
    · rw [limits_mk]
      exact store_limits vbat m

/-- The limits stay as they were set. -/
theorem after_limits (plugged : Bool) (samples : List UInt16) :
    (after plugged samples).limits = (UInt16.ofNat minMv, UInt16.ofNat maxMv, UInt16.ofNat pdMv) := by
  induction samples using List.reverseRecOn with
  | nil => rfl
  | append_singleton samples vbat ih => rw [after_snoc, irqhandler_limits, ih]

theorem kept_toNat (vbat : UInt16) : (kept vbat).toNat = 4 * vbat.toNat % 2 ^ 16 := by
  rw [kept, UInt16.toNat_shiftLeft, Nat.shiftLeft_eq, Nat.mul_comm]
  rfl

/-- What is kept of samples is less than they are by the bits that do not fit. -/
theorem sum_kept (l : List UInt16) :
    (l.map fun v => (kept v).toNat).sum ≤ (l.map fun v => 4 * v.toNat).sum ∧
      ((∀ v ∈ l, v.toNat < 2 ^ 14) → (l.map fun v => (kept v).toNat).sum = (l.map fun v => 4 * v.toNat).sum) ∧
      (¬(∀ v ∈ l, v.toNat < 2 ^ 14) → (l.map fun v => (kept v).toNat).sum + 2 ^ 16 ≤ (l.map fun v => 4 * v.toNat).sum) := by
  induction l with
  | nil => exact ⟨Nat.le_refl _, fun _ => rfl, fun h => absurd (List.forall_mem_nil _) h⟩
  | cons v l ih =>
    obtain ⟨hle, heq, hless⟩ := ih
    have hv := kept_toNat v
    simp only [List.map_cons, List.sum_cons]
    refine ⟨by omega, fun hall => ?_, fun hnot => ?_⟩
    · obtain ⟨hfirst, hrest⟩ := List.forall_mem_cons.mp hall
      have := heq hrest
      omega
    · by_cases hfirst : v.toNat < 2 ^ 14
      · have := hless fun hrest => hnot (List.forall_mem_cons.mpr ⟨hfirst, hrest⟩)
        omega
      · omega

/-- What is kept is 16 bits wide, and so is the mean of five of these. -/
theorem keptMean_lt (l : List UInt16) : ((l.take stableCount).map fun v => (kept v).toNat).sum / stableCount < 2 ^ 16 := by
  have hsum : ∀ l : List UInt16, (l.map fun v => (kept v).toNat).sum ≤ l.length * (2 ^ 16 - 1) := fun l => by
    induction l with
    | nil => exact Nat.le_refl 0
    | cons v l ih =>
      have hv := (kept v).toNat_lt
      rw [List.map_cons, List.sum_cons, List.length_cons]
      omega
  have hle := hsum (l.take stableCount)
  have hlen : (l.take stableCount).length ≤ 5 := List.length_take_le 5 l
  have hdiv : ((l.take stableCount).map fun v => (kept v).toNat).sum / 5 < 2 ^ 16 := by omega
  exact hdiv

/-- The counter and the mean behind the last of the samples. -/
theorem stored_mean (plugged : Bool) (hvalid : ∀ v ∈ samples, v ≠ badValue) (vbat : UInt16) :
    ((after plugged samples).store vbat).index.toNat = (samples ++ [vbat]).length % 2 ^ 16 ∧
      (stableCount < (samples ++ [vbat]).length % 2 ^ 16 →
        ((after plugged samples).store vbat).meanVoltage =
          ((latest (samples ++ [vbat])).map fun v => (kept v).toNat).sum / stableCount) := by
  have hopen : (appBatteryOpen plugged).slots.counter = 0 := rfl
  have hslots : ((after plugged samples).store vbat).slots =
      (appBatteryOpen plugged).slots.pushAll (2 ^ 16) ((samples ++ [vbat]).map kept) := by
    rw [store_slots, after_slots plugged hvalid, List.map_append, List.map_singleton, pushAll_snoc]
  have hcounter : ((after plugged samples).store vbat).index.toNat = (samples ++ [vbat]).length % 2 ^ 16 := by
    have h := counter_pushAll (2 ^ 16) hopen ((samples ++ [vbat]).map kept)
    rw [← hslots, List.length_map] at h
    exact h
  refine ⟨hcounter, fun hfull => ?_⟩
  have hsum := sum_pushAll (2 ^ 16) UInt16.toNat hopen ((samples ++ [vbat]).map kept)
    (by rw [← hslots, Measure.slots, hcounter]; exact Nat.le_of_lt hfull)
  rw [← hslots, ← List.map_reverse, ← List.map_take, List.map_map] at hsum
  exact congrArg (· / stableCount) hsum

/-- The status is right, but for a mean on the power-down limit. -/
theorem meanStatus_eq_iff (hlimits : m.limits = (UInt16.ofNat minMv, UInt16.ofNat maxMv, UInt16.ofNat pdMv)) (volt : Nat) :
    meanStatus m volt = rightStatus volt ↔ volt ≠ pdMv := by
  obtain ⟨hlow, hrest⟩ := Prod.mk.inj hlimits
  obtain ⟨hhigh, hpd⟩ := Prod.mk.inj hrest
  have hlow : m.lowvolt.toNat = 3200 := congrArg UInt16.toNat hlow
  have hhigh : m.highvolt.toNat = 4200 := congrArg UInt16.toNat hhigh
  have hpd : m.pdvolt.toNat = 3100 := congrArg UInt16.toNat hpd
  have hright : rightStatus volt =
      if 4200 < volt then .overvolt else if volt ≤ 3100 then .pdvolt else if volt < 3200 then .undervolt else .normal := rfl
  have hpdMv : volt ≠ pdMv ↔ volt ≠ 3100 := Iff.rfl
  rw [meanStatus, hright, hlow, hhigh, hpd, hpdMv]
  by_cases hover : 4200 < volt
  · rw [if_pos hover, if_pos hover]
    exact iff_of_true rfl (by omega)
  rw [if_neg hover, if_neg hover]
  rcases Nat.lt_trichotomy volt 3100 with hlt | rfl | hgt
  · rw [if_neg (by omega), if_pos hlt, if_pos (Nat.le_of_lt hlt)]
    exact iff_of_true rfl (Nat.ne_of_lt hlt)
  · exact iff_of_false (by decide) (by decide)
  · rw [if_neg (Nat.not_le.mpr hgt)]
    by_cases hunder : volt < 3200
    · rw [if_pos ⟨hgt, hunder⟩, if_pos hunder]
      exact iff_of_true rfl (Nat.ne_of_gt hgt)
    · rw [if_neg fun h => hunder h.2, if_neg (Nat.lt_asymm hgt), if_neg hunder]
      exact iff_of_true rfl (Nat.ne_of_gt hgt)

/-- The mean of what is kept is the mean of the samples when these fit. -/
theorem keptMean_eq_iff (l : List UInt16) :
    ((l.take stableCount).map fun v => (kept v).toNat).sum / stableCount =
        ((l.take stableCount).map fun v => 4 * v.toNat).sum / stableCount ↔
      ∀ v ∈ l.take stableCount, v.toNat < 2 ^ 14 := by
  obtain ⟨-, heq, hless⟩ := sum_kept (l.take stableCount)
  constructor
  · intro hmean
    by_contra hnot
    have hless := hless hnot
    have hmean : ((l.take stableCount).map fun v => (kept v).toNat).sum / 5 =
        ((l.take stableCount).map fun v => 4 * v.toNat).sum / 5 := hmean
    omega
  · intro hfit
    rw [heq hfit]

/-- The events of a valid sample, by the counter. -/
theorem irqhandler_events (hvalid : vbat ≠ badValue) :
    (appBatteryIrqhandler vbat m).2 =
      if stableCount < (m.store vbat).index.toNat then
        [(meanStatus (m.store vbat) (m.store vbat).meanVoltage, UInt16.ofNat (m.store vbat).meanVoltage)]
      else [] := by
  rw [appBatteryIrqhandler, if_neg hvalid]
  simp only
  split
  · rfl
  · rfl

/-- The level behind a sample: that of the sample, if it is one of the first, and else the one it was. -/
theorem irqhandler_level (vbat : UInt16) (m : Measure) :
    (appBatteryIrqhandler vbat m).1.currlevel =
      if vbat = badValue ∨ stableCount < (m.store vbat).index.toNat then m.currlevel else firstLevel (vbat.toNat * 4) := by
  rw [appBatteryIrqhandler]
  by_cases hbad : vbat = badValue
  · rw [if_pos hbad, if_pos (Or.inl hbad)]
  · rw [if_neg hbad]
    simp only [hbad, false_or]
    split
    · rw [Measure.store, level_mk]
    · rw [level_mk]

end Means

/-- A valid sample makes its event exactly when it is the sixth or a later one and the counter has not just
wrapped, the latest samples fit, and their mean is not the power-down limit. -/
theorem event_right_iff (plugged : Bool) (samples : List UInt16) (vbat : UInt16)
    (hvalid : ∀ v ∈ samples ++ [vbat], v ≠ badValue) :
    EventRight plugged samples vbat ↔ Regular (samples ++ [vbat]) := by
  obtain ⟨hindex, hmean⟩ := stored_mean plugged (fun v hv => hvalid v (List.mem_append_left _ hv)) vbat
  have hlast : vbat ≠ badValue := hvalid vbat (List.mem_append_right _ (List.mem_singleton_self _))
  have hlimits : ((after plugged samples).store vbat).limits = _ := (store_limits vbat _).trans (after_limits plugged samples)
  rw [EventRight, Regular, irqhandler_events hlast, hindex]
  by_cases hfull : stableCount < (samples ++ [vbat]).length % 2 ^ 16
  · have hmean := hmean hfull
    have hlt : ((after plugged samples).store vbat).meanVoltage < 2 ^ 16 := by
      rw [hmean]
      exact keptMean_lt _
    have hfit : ((after plugged samples).store vbat).meanVoltage = mean (samples ++ [vbat]) ↔
        ∀ v ∈ latest (samples ++ [vbat]), v.toNat < 2 ^ 14 := by
      rw [hmean]
      exact keptMean_eq_iff (samples ++ [vbat]).reverse
    rw [if_pos hfull]
    constructor
    · rintro ⟨volt, hevent, hvolt⟩
      obtain ⟨hstatus, rfl⟩ := Prod.mk.inj (List.singleton_inj.mp hevent)
      rw [UInt16.toNat_ofNat_of_lt' hlt] at hvolt
      rw [hvolt] at hstatus
      exact ⟨hfull, hfit.mp hvolt, (meanStatus_eq_iff hlimits _).mp hstatus⟩
    · rintro ⟨-, hsamples, hpd⟩
      have hvolt := hfit.mpr hsamples
      refine ⟨UInt16.ofNat ((after plugged samples).store vbat).meanVoltage, ?_, ?_⟩
      · rw [hvolt, (meanStatus_eq_iff hlimits _).mpr hpd]
      · rw [UInt16.toNat_ofNat_of_lt' hlt, hvolt]
  · rw [if_neg hfull]
    constructor
    · rintro ⟨volt, hevent, -⟩
      cases hevent
    · rintro ⟨h, -⟩
      exact absurd h hfull

/-- Six samples of 4000 mV. -/
theorem event_right_iff_regular :
    EventRight false (List.replicate 5 1000) 1000 ↔ Regular (List.replicate 5 1000 ++ [1000]) := by
  apply event_right_iff
  intro v hv
  have hv' : v ∈ List.replicate 6 1000 := hv
  rw [List.eq_of_mem_replicate hv']
  decide

/-- Six samples of 3100 mV are reported as normal. -/
theorem normal_at_pd : (appBatteryIrqhandler 775 (after false (List.replicate 5 775))).2 = [(.normal, 3100)] ∧
    ¬EventRight false (List.replicate 5 775) 775 := by
  have hevents : (appBatteryIrqhandler 775 (after false (List.replicate 5 775))).2 = [(.normal, 3100)] := by decide
  refine ⟨hevents, ?_⟩
  rintro ⟨volt, hevent, -⟩
  rw [hevents] at hevent
  have hstatus : Status.normal = rightStatus (mean (List.replicate 5 775 ++ [775])) :=
    congrArg Prod.fst (List.singleton_inj.mp hevent)
  exact absurd hstatus (by decide)

end Apps.Battery
