import LittleBuddy.Lib.Approach
import LittleBuddy.Lib.DoWhile
import Mathlib
/-!
# Fades of the ANC gains

The steps of `apps/anc/src/app_anc.c` that `anc_fade_thread` repeats until they
return 0. With both `ANC_FF_ENABLED` and `ANC_FB_ENABLED` one step moves the gains
of both types, in `uint32_t`.
-/
open Approach DoWhile

namespace AncFade

/-! ## The code -/

/-- `enum ANC_TYPE_T`. -/
inductive AncType where
  | notype
  | feedforward
  | feedback
  | talkthru
  | musiccancle
  deriving DecidableEq

/-- `gain_ch_l` and `gain_ch_r`. -/
inductive Channel where
  | l
  | r
  deriving DecidableEq

/-- What `anc_get_gain` returns, and `anc_get_cfg_gain`. -/
abbrev Gains := AncType × Channel → Int32

/-- Each of `gain0_curr` and `gain1_curr` in `__anc_usb_app_fadein`. -/
def fadeinGain (curr tg : Int32) : Int32 :=
  if tg > 0 then if curr < tg then curr + 1 else curr else if curr > tg then curr - 1 else curr

/-- Each of them in `__anc_usb_app_fadeout`. -/
def fadeoutGain (curr : Int32) : Int32 := if curr > 0 then curr - 1 else if curr < 0 then curr + 1 else curr

/-- `MIN` of a `uint32_t` and an `int32_t`. -/
def minUnsigned (a : UInt32) (b : Int32) : Int32 := if a < b.toUInt32 then a.toInt32 else b

/-- `MAX` of a `uint32_t` and an `int32_t`. -/
def maxUnsigned (a : UInt32) (b : Int32) : Int32 := if a > b.toUInt32 then a.toInt32 else b

/-- Each of the four gains in `__anc_usb_app_fadein_ff_fb`; `random_factor_inverse` is 1. -/
def fadeinGainFfFb (curr tg : Int32) : Int32 :=
  if tg > 0 then if curr < tg then minUnsigned (curr.toUInt32 + 1) tg else curr
  else if curr > tg then maxUnsigned (curr.toUInt32 - 1) tg else curr

/-- Each of them in `__anc_usb_app_fadeout_ff_fb`. -/
def fadeoutGainFfFb (curr : Int32) : Int32 :=
  if curr > 0 then maxUnsigned (curr.toUInt32 - 1) 0 else if curr < 0 then minUnsigned (curr.toUInt32 + 1) 0 else curr

/-- The gains of some types. -/
def slots (types : List AncType) : List (AncType × Channel) := types.flatMap fun type => [(type, .l), (type, .r)]

/-- A step on the gains of some types, and whether it returns 1. -/
def fadeStep (move : Int32 → Int32 → Int32) (types : List AncType) (tg gains : Gains) : Gains × Bool :=
  let next := fun slot => if slot ∈ slots types then move (gains slot) (tg slot) else gains slot
  (next, !(slots types).all fun slot => next slot == tg slot)

def zero : Gains := fun _ => 0

/-- `__anc_usb_app_fadein`. -/
def ancUsbAppFadein (type : AncType) (cfg gains : Gains) : Gains × Bool := fadeStep fadeinGain [type] cfg gains

/-- `__anc_usb_app_fadeout`. -/
def ancUsbAppFadeout (type : AncType) (gains : Gains) : Gains × Bool :=
  fadeStep (fun curr _ => fadeoutGain curr) [type] zero gains

/-- `__anc_usb_app_fadein_ff_fb`. -/
def ancUsbAppFadeinFfFb (cfg gains : Gains) : Gains × Bool := fadeStep fadeinGainFfFb [.feedforward, .feedback] cfg gains

/-- `__anc_usb_app_fadeout_ff_fb`. -/
def ancUsbAppFadeoutFfFb (gains : Gains) : Gains × Bool :=
  fadeStep (fun curr _ => fadeoutGainFfFb curr) [.feedforward, .feedback] zero gains

/-- The steps for one type, and those for both. -/
inductive Fade where
  | single (type : AncType)
  | ffFb

def Fade.types : Fade → List AncType
  | .single type => [type]
  | .ffFb => [.feedforward, .feedback]

/-- The step that `while (...);` repeats to fade in. -/
def Fade.fadein : Fade → Gains → Gains → Gains × Bool
  | .single type => ancUsbAppFadein type
  | .ffFb => ancUsbAppFadeinFfFb

/-- The one to fade out. -/
def Fade.fadeout : Fade → Gains → Gains × Bool
  | .single type => ancUsbAppFadeout type
  | .ffFb => ancUsbAppFadeoutFfFb

/-! ## What the fades should do -/

/-- Each gain moves by one at most, towards its target and not past it. -/
def MovesNearer (types : List AncType) (tg gains next : Gains) : Prop :=
  ∀ slot ∈ slots types, Nears (tg slot).toInt (gains slot).toInt (next slot).toInt

def Arrived (types : List AncType) (tg gains : Gains) : Prop := ∀ slot ∈ slots types, gains slot = tg slot

/-- The loop of the steps ends at the targets, and each step moves the gains nearer. -/
def Fades (step : Gains → Gains × Bool) (types : List AncType) (tg : Gains) : Gains → Prop :=
  Ends step (MovesNearer types tg) (Arrived types tg)

/-- From where a gain fades in. -/
def Fade.InReach : Fade → Int → Int → Prop
  | .single _, curr, tg => (0 < tg → curr ≤ tg) ∧ (tg ≤ 0 → tg ≤ curr)
  | .ffFb, curr, tg => (0 < tg → -1 ≤ curr ∧ curr ≤ tg) ∧ (tg = 0 → 0 ≤ curr) ∧ (tg < 0 → tg ≤ curr ∧ curr ≤ 0)

/-- From where it fades out. -/
def Fade.OutReach : Fade → Int → Prop
  | .single _, _ => True
  | .ffFb, curr => -1 ≤ curr

/-! ## One gain -/

section Gain

variable {curr tg : Int32}

/-- A gain that is moved: from inside `reach` one nearer and inside again, from outside it jumps or never moves. -/
structure Moves (move : Int32 → Int32 → Int32) (reach : Int → Int → Prop) (tg : Int32) : Prop where
  inside : ∀ curr, reach curr.toInt tg.toInt → (move curr tg).toInt = toward tg.toInt curr.toInt
  keeps : ∀ curr, reach curr tg.toInt → reach (toward tg.toInt curr) tg.toInt
  outside : ∀ curr, ¬reach curr.toInt tg.toInt →
    ¬Nears tg.toInt curr.toInt (move curr tg).toInt ∨ move curr tg = curr ∧ curr ≠ tg

theorem toInt_add_one (h : curr.toInt + 1 < 2 ^ 31) : (curr + 1).toInt = curr.toInt + 1 := by
  have hlo := curr.le_toInt
  have hone : (1 : Int32).toInt = 1 := rfl
  rw [Int32.toInt_add, hone]
  exact Int.bmod_eq_of_le (by omega) (by omega)

theorem toInt_sub_one (h : -2 ^ 31 ≤ curr.toInt - 1) : (curr - 1).toInt = curr.toInt - 1 := by
  have hhi := curr.toInt_lt
  have hone : (1 : Int32).toInt = 1 := rfl
  rw [Int32.toInt_sub, hone]
  exact Int.bmod_eq_of_le (by omega) (by omega)

theorem toNat_toUInt32 (x : Int32) : (x.toUInt32.toNat : Int) = x.toInt % 2 ^ 32 := by
  have hlt := x.toUInt32.toNat_lt
  rw [Int32.toInt, BitVec.toInt_eq_toNat_bmod, Int32.toNat_toBitVec, Int.bmod_def]
  split
  · omega
  · omega

theorem toUInt32_lt_iff (x y : Int32) : x.toUInt32 < y.toUInt32 ↔ x.toInt % 2 ^ 32 < y.toInt % 2 ^ 32 := by
  rw [UInt32.lt_iff_toNat_lt, ← toNat_toUInt32, ← toNat_toUInt32]
  omega

/-- `MIN` with a larger target, and `MAX` with a smaller one. -/
theorem minUnsigned_toInt (h : curr.toInt < tg.toInt) : (minUnsigned (curr.toUInt32 + 1) tg).toInt =
    if (curr.toInt + 1) % 2 ^ 32 < tg.toInt % 2 ^ 32 then curr.toInt + 1 else tg.toInt := by
  have hhi := tg.toInt_lt
  have hnext := @toInt_add_one curr (by omega)
  rw [minUnsigned]
  change (if (curr + 1).toUInt32 < tg.toUInt32 then curr + 1 else tg).toInt = _
  simp only [apply_ite Int32.toInt, toUInt32_lt_iff, hnext]

theorem maxUnsigned_toInt (h : tg.toInt < curr.toInt) : (maxUnsigned (curr.toUInt32 - 1) tg).toInt =
    if tg.toInt % 2 ^ 32 < (curr.toInt - 1) % 2 ^ 32 then curr.toInt - 1 else tg.toInt := by
  have hlo := tg.le_toInt
  have hnext := @toInt_sub_one curr (by omega)
  rw [maxUnsigned]
  change (if tg.toUInt32 < (curr - 1).toUInt32 then curr - 1 else tg).toInt = _
  simp only [apply_ite Int32.toInt, toUInt32_lt_iff, hnext]

/-- A choice by the sign of the target and then by the order, with the values as integers. -/
theorem choice_toInt (up down stay curr tg : Int32) :
    (if tg > 0 then if curr < tg then up else stay else if curr > tg then down else stay).toInt =
      if 0 < tg.toInt then if curr.toInt < tg.toInt then up.toInt else stay.toInt
      else if tg.toInt < curr.toInt then down.toInt else stay.toInt := by
  simp only [apply_ite Int32.toInt, gt_iff_lt, Int32.lt_iff_toInt_lt]
  rfl

theorem fadeinGain_toInt (curr tg : Int32) : (fadeinGain curr tg).toInt =
    if 0 < tg.toInt then if curr.toInt < tg.toInt then curr.toInt + 1 else curr.toInt
    else if tg.toInt < curr.toInt then curr.toInt - 1 else curr.toInt := by
  have hhi := tg.toInt_lt
  have hlo := tg.le_toInt
  rw [fadeinGain, choice_toInt]
  split_ifs with hsign hlt hgt
  · exact toInt_add_one (by omega)
  · rfl
  · exact toInt_sub_one (by omega)
  · rfl

theorem fadeinGainFfFb_toInt (curr tg : Int32) : (fadeinGainFfFb curr tg).toInt =
    if 0 < tg.toInt then
      if curr.toInt < tg.toInt then
        if (curr.toInt + 1) % 2 ^ 32 < tg.toInt % 2 ^ 32 then curr.toInt + 1 else tg.toInt
      else curr.toInt
    else if tg.toInt < curr.toInt then
      if tg.toInt % 2 ^ 32 < (curr.toInt - 1) % 2 ^ 32 then curr.toInt - 1 else tg.toInt
    else curr.toInt := by
  rw [fadeinGainFfFb, choice_toInt]
  split_ifs with hsign hlt hmin hgt hmax
  · rw [minUnsigned_toInt hlt, if_pos hmin]
  · rw [minUnsigned_toInt hlt, if_neg hmin]
  · rfl
  · rw [maxUnsigned_toInt hgt, if_pos hmax]
  · rw [maxUnsigned_toInt hgt, if_neg hmax]
  · rfl

/-- A choice by the sign of the gain. -/
theorem signChoice_toInt (down up curr : Int32) :
    (if curr > 0 then down else if curr < 0 then up else curr).toInt =
      if 0 < curr.toInt then down.toInt else if curr.toInt < 0 then up.toInt else curr.toInt := by
  simp only [apply_ite Int32.toInt, gt_iff_lt, Int32.lt_iff_toInt_lt]
  rfl

theorem fadeoutGain_toInt (curr : Int32) : (fadeoutGain curr).toInt = toward 0 curr.toInt := by
  have hlo := curr.le_toInt
  have hhi := curr.toInt_lt
  rw [fadeoutGain, signChoice_toInt, toward]
  split_ifs with hpos hneg hneg
  · omega
  · exact toInt_sub_one (by omega)
  · exact toInt_add_one (by omega)
  · rfl

theorem fadeoutGainFfFb_toInt (curr : Int32) : (fadeoutGainFfFb curr).toInt =
    if curr.toInt < -1 then 0 else toward 0 curr.toInt := by
  have hlo := curr.le_toInt
  have hhi := curr.toInt_lt
  have hzero : (0 : Int32).toInt = 0 := rfl
  rw [fadeoutGainFfFb, signChoice_toInt, toward]
  by_cases hpos : 0 < curr.toInt
  · have hmax := @maxUnsigned_toInt curr 0 (hzero.symm ▸ hpos)
    rw [hzero] at hmax
    rw [if_pos hpos, hmax]
    split_ifs
    all_goals omega
  · by_cases hneg : curr.toInt < 0
    · -- the sum is a large number, unless it is 0
      have hmin := @minUnsigned_toInt curr 0 (hzero.symm ▸ hneg)
      rw [hzero] at hmin
      rw [if_neg hpos, if_pos hneg, hmin]
      split_ifs
      all_goals omega
    · rw [if_neg hpos, if_neg hneg, if_neg (by omega), if_neg hneg, if_neg hpos]

theorem moves_fadein (type : AncType) (tg : Int32) : Moves fadeinGain (Fade.single type).InReach tg := by
  refine ⟨?_, ?_, ?_⟩
  · intro curr h
    obtain ⟨hpos, hneg⟩ := h
    rw [fadeinGain_toInt, toward]
    split_ifs
    all_goals omega
  · intro curr h
    obtain ⟨hpos, hneg⟩ := h
    rw [Fade.InReach, toward]
    split_ifs
    all_goals omega
  · intro curr h
    -- the gain is on the wrong side of its target
    refine .inr ?_
    rw [Fade.InReach] at h
    rw [← Int32.toInt_inj, fadeinGain_toInt, Ne, ← Int32.toInt_inj]
    split_ifs
    all_goals omega

theorem moves_fadein_ffFb (tg : Int32) : Moves fadeinGainFfFb Fade.ffFb.InReach tg := by
  have hlo := tg.le_toInt
  have hhi := tg.toInt_lt
  refine ⟨?_, ?_, ?_⟩
  · intro curr h
    have hcurr := curr.le_toInt
    have hcurr' := curr.toInt_lt
    obtain ⟨hpos, hzero, hneg⟩ := h
    rw [fadeinGainFfFb_toInt, toward]
    split_ifs
    all_goals omega
  · intro curr h
    obtain ⟨hpos, hzero, hneg⟩ := h
    rw [Fade.InReach, toward]
    split_ifs
    all_goals omega
  · intro curr h
    have hcurr := curr.le_toInt
    have hcurr' := curr.toInt_lt
    rw [Fade.InReach] at h
    rw [Nears, mem_uIcc_iff, ← Int32.toInt_inj, fadeinGainFfFb_toInt, Ne, ← Int32.toInt_inj]
    split_ifs
    all_goals omega

theorem moves_fadeout (type : AncType) : Moves (fun curr _ => fadeoutGain curr) (fun curr _ => (Fade.single type).OutReach curr) 0 :=
  ⟨fun curr _ => fadeoutGain_toInt curr, fun _ _ => trivial, fun _ h => absurd trivial h⟩

theorem moves_fadeout_ffFb : Moves (fun curr _ => fadeoutGainFfFb curr) (fun curr _ => Fade.ffFb.OutReach curr) 0 := by
  refine ⟨?_, ?_, ?_⟩
  · intro curr h
    have h : -1 ≤ curr.toInt := h
    change (fadeoutGainFfFb curr).toInt = toward 0 curr.toInt
    rw [fadeoutGainFfFb_toInt, if_neg (by omega)]
  · intro curr h
    have h : -1 ≤ curr := h
    change -1 ≤ toward 0 curr
    rw [toward]
    split_ifs
    all_goals omega
  · intro curr h
    have h : ¬-1 ≤ curr.toInt := h
    refine .inl fun hnears => ?_
    have habs : ((fadeoutGainFfFb curr).toInt - curr.toInt).natAbs ≤ 1 := hnears.2
    rw [fadeoutGainFfFb_toInt, if_pos (by omega)] at habs
    omega

end Gain

/-! ## The loops -/

section Loop

variable {move : Int32 → Int32 → Int32} {reach : Int → Int → Prop} {types : List AncType} {tg gains : Gains}
  {slot : AncType × Channel}

theorem fadeStep_slot (hslot : slot ∈ slots types) : (fadeStep move types tg gains).1 slot = move (gains slot) (tg slot) :=
  if_pos hslot

/-- The step returns 0 where all gains are at their targets. -/
theorem fadeStep_more : (fadeStep move types tg gains).2 = false ↔ Arrived types tg (fadeStep move types tg gains).1 := by
  change (!(slots types).all fun slot => (fadeStep move types tg gains).1 slot == tg slot) = false ↔ _
  rw [Bool.not_eq_false', List.all_eq_true]
  simp only [beq_iff_eq]
  rfl

/-- How far the gains are from their targets, together. -/
def distance (types : List AncType) (tg gains : Gains) : Nat :=
  ((slots types).map fun slot => ((tg slot).toInt - (gains slot).toInt).natAbs).sum

/-- While a gain has not arrived, a step that brings each gain nearer makes the distance smaller. -/
theorem distance_lt {next : Gains} (hnext : ∀ slot ∈ slots types, (next slot).toInt = toward (tg slot).toInt (gains slot).toInt)
    (hmore : ¬Arrived types tg next) : distance types tg next < distance types tg gains := by
  have hnearer : ∀ slot ∈ slots types, ((tg slot).toInt - (next slot).toInt).natAbs =
      ((tg slot).toInt - (gains slot).toInt).natAbs - 1 := by
    intro slot hslot
    rw [hnext slot hslot]
    exact natAbs_sub_toward _ _
  apply List.sum_lt_sum
  · intro slot hslot
    rw [hnearer slot hslot]
    exact Nat.sub_le _ _
  · obtain ⟨slot, hslot, hne⟩ : ∃ slot ∈ slots types, next slot ≠ tg slot := by
      simpa only [Arrived, not_forall, exists_prop] using hmore
    have hleft : (tg slot).toInt - (next slot).toInt ≠ 0 := fun hzero => hne (Int32.toInt_inj.mp (by omega))
    have := hnearer slot hslot
    exact ⟨slot, hslot, by omega⟩

/-- A loop fades its gains if and only if each of them is in reach. -/
theorem fades_iff_reach (hmoves : ∀ slot ∈ slots types, Moves move reach (tg slot)) :
    Fades (fadeStep move types tg) types tg gains ↔ ∀ slot ∈ slots types, reach (gains slot).toInt (tg slot).toInt := by
  constructor
  · intro h slot hslot
    by_contra hreach
    rcases (hmoves slot hslot).outside _ hreach with hjump | ⟨hstay, hne⟩
    · have hfirst := h.first slot hslot
      rw [fadeStep_slot hslot] at hfirst
      exact hjump hfirst
    · -- the gain stays where it is, and the loop does not end
      refine h.absurd (fun g => g slot = gains slot) (fun g hg => ?_) (fun g hg harrived => ?_) rfl
      · rw [fadeStep_slot hslot, hg, hstay]
      · exact hne (hg.symm.trans (harrived slot hslot))
  · intro h
    refine Ends.of_variant (fun g => ∀ slot ∈ slots types, reach (g slot).toInt (tg slot).toInt) (distance types tg) ?_ ?_ ?_ h
    · intro g hg slot hslot
      rw [fadeStep_slot hslot, (hmoves slot hslot).inside _ (hg slot hslot)]
      exact toward_nears _ _
    · intro g _ hlast
      exact fadeStep_more.mp hlast
    · intro g hg hmore
      have hnext : ∀ slot ∈ slots types, ((fadeStep move types tg g).1 slot).toInt = toward (tg slot).toInt (g slot).toInt := by
        intro slot hslot
        rw [fadeStep_slot hslot]
        exact (hmoves slot hslot).inside _ (hg slot hslot)
      refine ⟨fun slot hslot => ?_, ?_⟩
      · rw [hnext slot hslot]
        exact (hmoves slot hslot).keeps _ (hg slot hslot)
      · refine distance_lt hnext fun harrived => ?_
        rw [fadeStep_more.mpr harrived] at hmore
        cases hmore

end Loop

/-- The loops of a fade are right if and only if each gain is in reach: to fade in from the side of its target that the
sign of the target asks for, with both types also not from the other side of 0 (but from -1), and to fade out from
anywhere, with both types from -1 on. -/
theorem fades_right_iff (fade : Fade) (cfg gains : Gains) :
    (Fades (fade.fadein cfg) fade.types cfg gains ↔
        ∀ slot ∈ slots fade.types, fade.InReach (gains slot).toInt (cfg slot).toInt) ∧
      (Fades fade.fadeout fade.types zero gains ↔ ∀ slot ∈ slots fade.types, fade.OutReach (gains slot).toInt) := by
  cases fade with
  | single type =>
    exact ⟨fades_iff_reach fun slot _ => moves_fadein type (cfg slot), fades_iff_reach fun _ _ => moves_fadeout type⟩
  | ffFb => exact ⟨fades_iff_reach fun slot _ => moves_fadein_ffFb (cfg slot), fades_iff_reach fun _ _ => moves_fadeout_ffFb⟩

/-- From 20 to the target 10 the loop does not end; with both types a gain of -2 jumps to the target 10, and to 0 where
it is to fade out. -/
theorem gain_left_behind :
    ¬Fades (ancUsbAppFadein .feedforward fun _ => 10) [.feedforward] (fun _ => 10) (fun _ => 20) ∧
      (ancUsbAppFadeinFfFb (fun _ => 10) fun _ => -2).1 (.feedforward, .l) = 10 ∧
      (ancUsbAppFadeoutFfFb fun _ => -2).1 (.feedforward, .l) = 0 := by
  refine ⟨fun h => ?_, by decide, by decide⟩
  refine h.absurd (fun g => g (.feedforward, .l) = 20) (fun g hg => ?_) (fun g hg harrived => ?_) rfl
  · change fadeinGain (g (.feedforward, .l)) 10 = 20
    rw [hg]
    decide
  · have hten : g (.feedforward, .l) = 10 := harrived _ (by decide)
    rw [hg] at hten
    exact absurd hten (by decide)

end AncFade
