import LittleBuddy.Lib.Chunks
import Mathlib.Data.Nat.ModEq
import Mathlib.Tactic.Common
/-!
# Fades of a prompt

`app_play_sbc_more_data_fadein` and `app_play_sbc_more_data_fadeout` of
`services/bt_app/app_media_player.cpp`. Both multiply a signed sample by an
unsigned counter and divide by an unsigned length, so that C converts the sample
to `uint32_t` first.
-/
open Chunks

namespace BtApp.Fade

/-! ## The code -/

/-- `*(buf+j)*i/len`, stored to an `int16_t`. -/
def scale (x : Int16) (i len : UInt32) : Int16 := (x.toInt32.toUInt32 * i / len).toUInt16.toInt16

/-- The loop of `app_play_sbc_more_data_fadeout`. -/
def fadeoutLoop (len : UInt32) : UInt32 → List Int16 → List Int16
  | _, [] => []
  | i, x :: buf => scale x i len :: fadeoutLoop len (i - 1) buf

/-- `app_play_sbc_more_data_fadeout`: the buffer after it. -/
def fadeout (buf : List Int16) : List Int16 :=
  fadeoutLoop (UInt32.ofNat buf.length) (UInt32.ofNat buf.length) buf

/-- `need_fadein_len` and `need_fadein_len_processed`. -/
structure Fadein where
  need_fadein_len : UInt32
  need_fadein_len_processed : UInt32

/-- `app_play_sbc_more_data_fadein_config`. -/
def fadeinConfig (len : UInt32) : Fadein := ⟨len, 0⟩

/-- The loop of `app_play_sbc_more_data_fadein`. -/
def fadeinLoop (need_fadein_len : UInt32) : UInt32 → List Int16 → List Int16
  | _, [] => []
  | i, x :: buf => scale x i need_fadein_len :: fadeinLoop need_fadein_len (i + 1) buf

/-- `dest`. -/
def Fadein.dest (s : Fadein) (len : UInt32) : UInt32 :=
  if s.need_fadein_len_processed + len < s.need_fadein_len then s.need_fadein_len_processed + len
  else s.need_fadein_len_processed

/-- `app_play_sbc_more_data_fadein`: the buffer after it. -/
def fadein (s : Fadein) (buf : List Int16) : List Int16 × Fadein :=
  let base := s.need_fadein_len_processed
  let dest := s.dest (UInt32.ofNat buf.length)
  if base ≥ dest then (buf, s)
  else
    let n := (dest - base).toNat
    (fadeinLoop s.need_fadein_len base (buf.take n) ++ buf.drop n,
      { s with need_fadein_len_processed := s.need_fadein_len_processed + (dest - base) })

/-- What successive calls leave in their buffers, one behind the other. -/
def fadeinCalls (s : Fadein) (bufs : List (List Int16)) : List Int16 := (calls fadein s bufs).1

/-! ## What the fades should do -/

/-- Sample `j` is multiplied by `(len - j) / len`. -/
def FadedOut (buf out : List Int16) : Prop :=
  out.map Int16.toInt = mapFrom (fun j x => Int.tdiv (x.toInt * (buf.length - j : Nat)) buf.length) 0 buf

/-- From sample `k` on: it is multiplied by `k / need`, if that is below 1. -/
def FadedFrom (need k : Nat) (samples out : List Int16) : Prop :=
  out.map Int16.toInt = mapFrom (fun k x => if k < need then Int.tdiv (x.toInt * k) need else x.toInt) k samples

/-- All samples since the configuration. -/
def FadedIn (need : Nat) (samples out : List Int16) : Prop := FadedFrom need 0 samples out

instance (buf out : List Int16) : Decidable (FadedOut buf out) := inferInstanceAs (Decidable (_ = _))

instance (need : Nat) (samples out : List Int16) : Decidable (FadedIn need samples out) :=
  inferInstanceAs (Decidable (_ = _))

theorem natAbs_tdiv_le {x : Int} {k n : Nat} (hk : k ≤ n) : ((x * k).tdiv n).natAbs ≤ x.natAbs := by
  rw [Int.natAbs_tdiv, Int.natAbs_mul, Int.natAbs_natCast, Int.natAbs_natCast]
  exact Nat.div_le_of_le_mul (Nat.mul_comm n _ ▸ Nat.mul_le_mul_left _ hk)

theorem self_eq_tdiv_iff {x : Int} {k n : Nat} (hk : k < n) : x = Int.tdiv (x * k) n ↔ x = 0 := by
  constructor
  · intro heq
    have habs := congrArg Int.natAbs heq
    rw [Int.natAbs_tdiv, Int.natAbs_mul, Int.natAbs_natCast, Int.natAbs_natCast] at habs
    have hmul := (Nat.le_div_iff_mul_le (by omega)).1 habs.le
    by_contra hne
    have := Nat.mul_lt_mul_of_pos_left hk (Int.natAbs_pos.2 hne)
    omega
  · rintro rfl
    simp

/-- No sample grows. -/
theorem FadedOut.natAbs_le {buf out : List Int16} (h : FadedOut buf out) {j : Nat} {x y : Int16}
    (hx : buf[j]? = some x) (hy : out[j]? = some y) : y.toInt.natAbs ≤ x.toInt.natAbs := by
  have hj := congrArg (·[j]?) h
  simp only [mapFrom, List.getElem?_map, List.getElem?_mapIdx, hx, hy, Option.map_some, Option.some.injEq] at hj
  rw [hj]
  exact natAbs_tdiv_le (Nat.sub_le _ _)

theorem FadedIn.natAbs_le {need : Nat} {samples out : List Int16} (h : FadedIn need samples out) {k : Nat}
    {x y : Int16} (hx : samples[k]? = some x) (hy : out[k]? = some y) : y.toInt.natAbs ≤ x.toInt.natAbs := by
  have hk := congrArg (·[k]?) h
  simp only [mapFrom, List.getElem?_map, List.getElem?_mapIdx, hx, hy, Option.map_some, Option.some.injEq] at hk
  rw [hk]
  split
  · rename_i hlt
    exact natAbs_tdiv_le hlt.le
  · exact Nat.le_refl _

/-! ## Scaling a sample -/

/-- For a product `-a` the unsigned division by `len` gives `-t` modulo `2 ^ 16`:
the quotient is taken of the next multiple of `2 ^ 32` instead of 0. -/
def Comes (a len t : Nat) : Prop :=
  let m := (a + 0xFFFFFFFF) / 2 ^ 32 * 2 ^ 32
  m / len + t ≡ a / len + (if m % len < a % len then 1 else 0) [MOD 2 ^ 16]

instance (a len t : Nat) : Decidable (Comes a len t) := inferInstanceAs (Decidable (Nat.ModEq ..))

theorem toNat_toUInt32 (x : Int16) : (x.toInt32.toUInt32.toNat : Int) = x.toInt % 2 ^ 32 := by
  have h := x.toInt_toInt32
  rw [Int32.toInt, BitVec.toInt_eq_toNat_bmod, Int32.toNat_toBitVec] at h
  rw [← h]
  have hlt := x.toInt32.toUInt32.toNat_lt
  rw [Int.bmod_def]
  split_ifs <;> omega

theorem scale_toInt (x : Int16) (i len : UInt32) : (scale x i len).toInt =
    Int.bmod ((x.toInt32.toUInt32.toNat * i.toNat % 2 ^ 32 / len.toNat : Nat)) (2 ^ 16) := by
  rw [scale, Int16.toInt, UInt16.toBitVec_toInt16, BitVec.toInt_eq_toNat_bmod, UInt16.toNat_toBitVec,
    UInt32.toNat_toUInt16, UInt32.toNat_div, UInt32.toNat_mul, Int.natCast_emod]
  exact Int.emod_bmod _ _

theorem mul_div_le {n i len : Nat} (hi : i ≤ len) : n * i / len ≤ n :=
  Nat.div_le_of_le_mul (Nat.mul_comm len n ▸ Nat.mul_le_mul_left n hi)

/-- A sample that is not negative loses what the product is above `2 ^ 32`. -/
theorem scale_natCast {x : Int16} {n : Nat} {i len : UInt32} (hx : x.toInt = n) (hi : i ≤ len) :
    (scale x i len).toInt = (n * i.toNat % 2 ^ 32 / len.toNat : Nat) := by
  have hlt := x.toInt_lt
  have hnat : x.toInt32.toUInt32.toNat = n := by
    have := toNat_toUInt32 x
    omega
  rw [UInt32.le_iff_toNat_le] at hi
  have hle := mul_div_le (n := n) hi
  have hle' : n * i.toNat % 2 ^ 32 / len.toNat ≤ n * i.toNat / len.toNat := Nat.div_le_div_right (Nat.mod_le _ _)
  rw [scale_toInt, hnat]
  generalize n * i.toNat % 2 ^ 32 / len.toNat = q at hle' ⊢
  exact Int.bmod_eq_of_le (by omega) (by omega)

/-- It is scaled as it should be exactly if the product stays below. -/
theorem scale_nonneg {x : Int16} {i len : UInt32} (hx : 0 ≤ x.toInt) (hi : i ≤ len) (hlen : 0 < len.toNat) :
    (scale x i len).toInt = Int.tdiv (x.toInt * i.toNat) len.toNat ↔ x.toInt * i.toNat < 2 ^ 32 := by
  obtain ⟨n, hn⟩ := Int.eq_ofNat_of_zero_le hx
  rw [scale_natCast hn hi, hn, ← Int.natCast_mul, ← Int.ofNat_tdiv, Int.natCast_inj]
  generalize n * i.toNat = a
  constructor
  · intro heq
    by_contra hover
    -- what is lost is more than the divisor
    have hmod : a % 2 ^ 32 + len.toNat ≤ a := by
      have := len.toNat_lt
      omega
    have hdiv := Nat.div_le_div_right (c := len.toNat) hmod
    rw [Nat.add_div_right _ hlen, heq] at hdiv
    omega
  · intro hsmall
    rw [Nat.mod_eq_of_lt (by omega)]

theorem sub_div_add {a m len : Nat} (hle : a ≤ m) (hlen : 0 < len) :
    (m - a) / len + (a / len + if m % len < a % len then 1 else 0) = m / len := by
  obtain ⟨d, rfl⟩ := Nat.exists_eq_add_of_le hle
  rw [Nat.add_sub_cancel_left, Nat.add_div hlen, Nat.add_mod]
  have ha := Nat.mod_lt a hlen
  have hd := Nat.mod_lt d hlen
  by_cases hcarry : len ≤ a % len + d % len
  · rw [Nat.mod_eq_sub_mod hcarry, Nat.mod_eq_of_lt (by omega), if_pos (by omega), if_pos hcarry]
    omega
  · rw [Nat.mod_eq_of_lt (by omega), if_neg (by omega), if_neg hcarry]
    omega

theorem scale_neg (x : Int16) (i len : UInt32) (t : Nat) (hx : x.toInt < 0) (hlen : 0 < len.toNat) (ht : t ≤ 2 ^ 15) :
    (scale x i len).toInt = -t ↔ Comes (x.toInt.natAbs * i.toNat) len.toNat t := by
  have hge := x.le_toInt
  obtain ⟨n, hn⟩ := Int.eq_negSucc_of_lt_zero hx
  have hnat : x.toInt32.toUInt32.toNat = 2 ^ 32 - x.toInt.natAbs := by
    have := toNat_toUInt32 x
    omega
  have hsmall : x.toInt.natAbs ≤ 2 ^ 15 := by omega
  rw [scale_toInt, hnat]
  generalize x.toInt.natAbs = y at hsmall
  have hprod : (2 ^ 32 - y) * i.toNat + y * i.toNat = 2 ^ 32 * i.toNat := by
    rw [← Nat.add_mul, Nat.sub_add_cancel (by omega)]
  generalize (2 ^ 32 - y) * i.toNat = p, y * i.toNat = a at hprod
  -- the product is what is missing to the next multiple of `2 ^ 32`
  have hmod : p % 2 ^ 32 = (a + 0xFFFFFFFF) / 2 ^ 32 * 2 ^ 32 - a := by omega
  have hdiv := sub_div_add (a := a) (m := (a + 0xFFFFFFFF) / 2 ^ 32 * 2 ^ 32) (by omega) hlen
  rw [hmod, Comes]
  rw [← hdiv, Nat.ModEq]
  generalize (_ - a) / len.toNat = q, a / len.toNat + _ = c
  rw [Int.bmod_def]
  split_ifs <;> omega

/-- Multiplied by `i / len` the sample comes out rounded toward zero. -/
def ScalesRight (x : Int16) (i len : Nat) : Prop :=
  if 0 ≤ x.toInt then x.toInt * i < 2 ^ 32 else Comes (x.toInt.natAbs * i) len (x.toInt.natAbs * i / len)

/-- Multiplied by `i / len` the sample comes out as it was. -/
def ScalesToItself (x : Int16) (i len : Nat) : Prop :=
  x.toInt = 0 ∨ (x.toInt < 0 ∧ Comes (x.toInt.natAbs * i) len x.toInt.natAbs)

instance (x : Int16) (i len : Nat) : Decidable (ScalesRight x i len) := inferInstanceAs (Decidable (ite ..))

instance (x : Int16) (i len : Nat) : Decidable (ScalesToItself x i len) := inferInstanceAs (Decidable (_ ∨ _))

theorem scale_right_iff {x : Int16} {i len : UInt32} (hi : i ≤ len) (hlen : 0 < len.toNat) :
    (scale x i len).toInt = Int.tdiv (x.toInt * i.toNat) len.toNat ↔ ScalesRight x i.toNat len.toNat := by
  rw [ScalesRight]
  split
  · rename_i hx
    exact scale_nonneg hx hi hlen
  · rename_i hx
    have hge := x.le_toInt
    have habs : x.toInt = -(x.toInt.natAbs : Int) := by omega
    have hle := mul_div_le (n := x.toInt.natAbs) (UInt32.le_iff_toNat_le.1 hi)
    have htdiv : Int.tdiv (x.toInt * i.toNat) len.toNat = -((x.toInt.natAbs * i.toNat / len.toNat : Nat) : Int) := by
      rw [habs, Int.natAbs_neg, Int.natAbs_natCast, Int.neg_mul, Int.neg_tdiv, ← Int.natCast_mul, ← Int.ofNat_tdiv]
    rw [htdiv]
    exact scale_neg _ _ _ _ (by omega) hlen (by omega)

theorem scale_self_iff (x : Int16) (i len : UInt32) (hi : i < len) :
    (scale x i len).toInt = x.toInt ↔ ScalesToItself x i.toNat len.toNat := by
  have hlt := UInt32.lt_iff_toNat_lt.1 hi
  rw [ScalesToItself]
  by_cases hx : 0 ≤ x.toInt
  · obtain ⟨n, hn⟩ := Int.eq_ofNat_of_zero_le hx
    rw [scale_natCast hn (UInt32.le_of_lt hi), hn]
    have hmod := Nat.mod_le (n * i.toNat) (2 ^ 32)
    constructor
    · intro heq
      -- a factor below 1 makes every sample smaller but 0
      have hdiv : n ≤ n * i.toNat / len.toNat := by
        have := Nat.div_le_div_right (c := len.toNat) hmod
        omega
      have hmul := (Nat.le_div_iff_mul_le (by omega)).1 hdiv
      refine .inl ?_
      by_contra hne
      have := Nat.mul_lt_mul_of_pos_left hlt (show 0 < n by omega)
      omega
    · rintro (hzero | ⟨hneg, -⟩)
      · obtain rfl : n = 0 := by omega
        simp
      · omega
  · have hge := x.le_toInt
    have habs : x.toInt = -(x.toInt.natAbs : Int) := by omega
    have h := scale_neg x i len x.toInt.natAbs (by omega) (by omega) (by omega)
    rw [← habs] at h
    rw [h]
    exact ⟨fun hc => .inr ⟨by omega, hc⟩, fun hc => hc.elim (fun hz => by omega) And.right⟩

/-! ## The loops -/

theorem fadeoutLoop_eq (len i : UInt32) (buf : List Int16) :
    fadeoutLoop len i buf = mapFrom (fun j x => scale x (i - UInt32.ofNat j) len) 0 buf := by
  induction buf generalizing i with
  | nil => rfl
  | cons x buf ih =>
    rw [fadeoutLoop, ih, ← List.singleton_append (l := buf), mapFrom_append]
    refine congrArg₂ List.cons (by simp) (mapFrom_eq_iff.2 fun j y _ => ?_)
    congr 1
    rw [List.length_singleton, UInt32.ofNat_add, UInt32.ofNat_add]
    grind

theorem fadeinLoop_eq (need i : UInt32) (buf : List Int16) :
    fadeinLoop need i buf = mapFrom (fun j x => scale x (i + UInt32.ofNat j) need) 0 buf := by
  induction buf generalizing i with
  | nil => rfl
  | cons x buf ih =>
    rw [fadeinLoop, ih, ← List.singleton_append (l := buf), mapFrom_append]
    refine congrArg₂ List.cons (by simp) (mapFrom_eq_iff.2 fun j y _ => ?_)
    congr 1
    rw [List.length_singleton, UInt32.ofNat_add, UInt32.ofNat_add]
    grind

/-! ## The fade-out -/

/-- The buffer is faded out as it should be exactly if every sample scales right. -/
theorem fadeout_iff {buf : List Int16} (hlen : buf.length < 2 ^ 32) :
    FadedOut buf (fadeout buf) ↔ ∀ j x, buf[j]? = some x → ScalesRight x (buf.length - j) buf.length := by
  rw [FadedOut, fadeout, fadeoutLoop_eq, map_mapFrom_eq_iff]
  simp only [Nat.zero_add]
  refine forall_congr' fun j => forall_congr' fun x => forall_congr' fun hx => ?_
  have hj : j < buf.length := (List.getElem?_eq_some_iff.1 hx).1
  have hnat : (UInt32.ofNat buf.length).toNat = buf.length := UInt32.toNat_ofNat_of_lt' hlen
  have hjnat : (UInt32.ofNat j).toNat = j := UInt32.toNat_ofNat_of_lt' (hj.trans hlen)
  have hle : UInt32.ofNat j ≤ UInt32.ofNat buf.length := by
    rw [UInt32.le_iff_toNat_le, hnat, hjnat]
    exact hj.le
  have hi : (UInt32.ofNat buf.length - UInt32.ofNat j).toNat = buf.length - j := by
    rw [UInt32.toNat_sub_of_le _ _ hle, hnat, hjnat]
  have hfactor : UInt32.ofNat buf.length - UInt32.ofNat j ≤ UInt32.ofNat buf.length := by
    rw [UInt32.le_iff_toNat_le, hi, hnat]
    exact Nat.sub_le _ _
  have h := scale_right_iff (x := x) hfactor (by omega)
  rwa [hi, hnat] at h

/-! ## The fade-in -/

/-- A buffer that ends below the length is scaled throughout; any other one is left alone. -/
theorem fadein_eq (s : Fadein) {buf : List Int16} (hlen : buf.length < 2 ^ 32)
    (hs : s.need_fadein_len_processed ≤ s.need_fadein_len) :
    fadein s buf =
      if s.need_fadein_len_processed.toNat + buf.length < s.need_fadein_len.toNat then
        (mapFrom (fun j x => scale x (s.need_fadein_len_processed + UInt32.ofNat j) s.need_fadein_len) 0 buf,
          { s with need_fadein_len_processed := s.need_fadein_len_processed + UInt32.ofNat buf.length })
      else (buf, s) := by
  rcases s with ⟨need, p⟩
  dsimp only at hs ⊢
  have hnat : (UInt32.ofNat buf.length).toNat = buf.length := UInt32.toNat_ofNat_of_lt' hlen
  have hneed := need.toNat_lt
  rw [UInt32.le_iff_toNat_le] at hs
  simp only [fadein, Fadein.dest, ge_iff_le, UInt32.lt_iff_toNat_lt, UInt32.le_iff_toNat_le, UInt32.toNat_add, hnat]
  by_cases hfits : p.toNat + buf.length < need.toNat
  · have hsub : p + UInt32.ofNat buf.length - p = UInt32.ofNat buf.length := by grind
    rw [Nat.mod_eq_of_lt (by omega), if_pos hfits, if_pos hfits, hsub, hnat, UInt32.toNat_add, hnat,
      Nat.mod_eq_of_lt (by omega), List.take_length, List.drop_length, List.append_nil, fadeinLoop_eq]
    split
    · obtain rfl : buf = [] := List.eq_nil_of_length_eq_zero (by omega)
      simp
    · rfl
  · rw [if_neg hfits]
    split_ifs with hwrap hle hle
    · rfl
    · rw [UInt32.toNat_add, hnat] at hle
      omega
    · rfl
    · omega

theorem fadeinCalls_cons (s : Fadein) (buf : List Int16) (bufs : List (List Int16)) :
    fadeinCalls s (buf :: bufs) = (fadein s buf).1 ++ fadeinCalls (fadein s buf).2 bufs := rfl

theorem FadedFrom.append_iff {need k : Nat} {samples samples' out out' : List Int16}
    (hlen : out.length = samples.length) :
    FadedFrom need k (samples ++ samples') (out ++ out') ↔
      FadedFrom need k samples out ∧ FadedFrom need (k + samples.length) samples' out' := by
  rw [FadedFrom, List.map_append, append_eq_mapFrom_iff (by simp [hlen])]
  rfl

/-- A buffer that is left alone. -/
theorem fadedFrom_self_iff {need k : Nat} {buf : List Int16} :
    FadedFrom need k buf buf ↔ ∀ j x, buf[j]? = some x → k + j < need → x.toInt = 0 := by
  have hmap : mapFrom (fun _ x => x) 0 buf = buf := mapFrom_eq_self fun _ _ _ => rfl
  rw [FadedFrom]
  nth_rewrite 1 [← hmap]
  refine map_mapFrom_eq_iff.trans (forall_congr' fun j => forall_congr' fun x => forall_congr' fun _ => ?_)
  split
  · rename_i hlt
    simpa [hlt] using self_eq_tdiv_iff (x := x.toInt) hlt
  · rename_i hge
    simp [hge]

/-- The samples are past the fade. Whenever a buffer ends below the length, counted
from what has been faded, its samples are scaled all the same. -/
def Untouched (need : Nat) : Nat → List (List Int16) → Prop
  | _, [] => True
  | p, buf :: bufs =>
    if p + buf.length < need then
      (∀ j x, buf[j]? = some x → ScalesToItself x (p + j) need) ∧ Untouched need (p + buf.length) bufs
    else Untouched need p bufs

/-- While the buffers end below the length every sample scales right. The first
one that does not is left alone: it holds silence up to the length. -/
def FadesRight (need : Nat) : Nat → List (List Int16) → Prop
  | _, [] => True
  | p, buf :: bufs =>
    if p + buf.length < need then
      (∀ j x, buf[j]? = some x → ScalesRight x (p + j) need) ∧ FadesRight need (p + buf.length) bufs
    else (∀ j x, buf[j]? = some x → p + j < need → x.toInt = 0) ∧ Untouched need p bufs

theorem toNat_add_ofNat (need p : UInt32) (j : Nat) (h : p.toNat + j < need.toNat) :
    (p + UInt32.ofNat j).toNat = p.toNat + j := by
  have := need.toNat_lt
  rw [UInt32.toNat_add, UInt32.toNat_ofNat_of_lt' (by simp only [UInt32.size]; omega), Nat.mod_eq_of_lt (by omega)]

/-- A buffer that is scaled, at its place. -/
theorem fadedFrom_scale_iff {need p : UInt32} {buf : List Int16} (hfits : p.toNat + buf.length < need.toNat) :
    FadedFrom need.toNat p.toNat buf (mapFrom (fun j x => scale x (p + UInt32.ofNat j) need) 0 buf) ↔
      ∀ j x, buf[j]? = some x → ScalesRight x (p.toNat + j) need.toNat := by
  rw [FadedFrom, map_mapFrom_eq_iff]
  simp only [Nat.zero_add]
  refine forall_congr' fun j => forall_congr' fun x => forall_congr' fun hx => ?_
  have hj : j < buf.length := (List.getElem?_eq_some_iff.1 hx).1
  have hnat := toNat_add_ofNat need p j (by omega)
  have hle : p + UInt32.ofNat j ≤ need := UInt32.le_iff_toNat_le.2 (by omega)
  have h := scale_right_iff (x := x) hle (by omega)
  rw [hnat] at h
  rwa [if_pos (by omega)]

/-- A buffer that is scaled past the fade. -/
theorem fadedFrom_past_scale_iff {need p : UInt32} {k : Nat} {buf : List Int16}
    (hfits : p.toNat + buf.length < need.toNat) (hk : need.toNat ≤ k) :
    FadedFrom need.toNat k buf (mapFrom (fun j x => scale x (p + UInt32.ofNat j) need) 0 buf) ↔
      ∀ j x, buf[j]? = some x → ScalesToItself x (p.toNat + j) need.toNat := by
  rw [FadedFrom, map_mapFrom_eq_iff]
  simp only [Nat.zero_add]
  refine forall_congr' fun j => forall_congr' fun x => forall_congr' fun hx => ?_
  have hj : j < buf.length := (List.getElem?_eq_some_iff.1 hx).1
  have hnat := toNat_add_ofNat need p j (by omega)
  have h := scale_self_iff x (p + UInt32.ofNat j) need (UInt32.lt_iff_toNat_lt.2 (by omega))
  rw [hnat] at h
  rwa [if_neg (by omega)]

/-- Past the fade, call by call. -/
theorem fadedFrom_past_iff {need p : UInt32} {k : Nat} {bufs : List (List Int16)}
    (hlen : ∀ buf ∈ bufs, buf.length < 2 ^ 32) (hp : p ≤ need) (hk : need.toNat ≤ k) :
    FadedFrom need.toNat k bufs.flatten (fadeinCalls ⟨need, p⟩ bufs) ↔ Untouched need.toNat p.toNat bufs := by
  induction bufs generalizing p k with
  | nil => simp [fadeinCalls, calls, FadedFrom, Untouched]
  | cons buf bufs ih =>
    have hlen' : ∀ buf ∈ bufs, buf.length < 2 ^ 32 := fun b hb => hlen b (List.mem_cons_of_mem _ hb)
    rw [fadeinCalls_cons, fadein_eq ⟨need, p⟩ (hlen buf List.mem_cons_self) hp, List.flatten_cons, Untouched]
    dsimp only
    split
    · rename_i hfits
      have hnat := toNat_add_ofNat need p _ hfits
      have hle : p + UInt32.ofNat buf.length ≤ need := UInt32.le_iff_toNat_le.2 (by omega)
      rw [FadedFrom.append_iff (by simp), fadedFrom_past_scale_iff hfits hk, ih hlen' hle (by omega), hnat]
    · rw [FadedFrom.append_iff rfl, ih hlen' hp (by omega), fadedFrom_self_iff]
      refine and_iff_right fun j x _ hlt => ?_
      omega

/-- From the configuration on, call by call: as long as the buffers are scaled,
what has been faded is what has been played. -/
theorem fadedFrom_iff (need p : UInt32) {bufs : List (List Int16)} (hlen : ∀ buf ∈ bufs, buf.length < 2 ^ 32)
    (hp : p ≤ need) :
    FadedFrom need.toNat p.toNat bufs.flatten (fadeinCalls ⟨need, p⟩ bufs) ↔ FadesRight need.toNat p.toNat bufs := by
  induction bufs generalizing p with
  | nil => simp [fadeinCalls, calls, FadedFrom, FadesRight]
  | cons buf bufs ih =>
    have hlen' : ∀ buf ∈ bufs, buf.length < 2 ^ 32 := fun b hb => hlen b (List.mem_cons_of_mem _ hb)
    rw [fadeinCalls_cons, fadein_eq ⟨need, p⟩ (hlen buf List.mem_cons_self) hp, List.flatten_cons, FadesRight]
    dsimp only
    split
    · rename_i hfits
      have hnat := toNat_add_ofNat need p _ hfits
      have hle : p + UInt32.ofNat buf.length ≤ need := UInt32.le_iff_toNat_le.2 (by omega)
      have hrest := ih _ hlen' hle
      rw [hnat] at hrest
      rw [FadedFrom.append_iff (by simp), fadedFrom_scale_iff hfits, hrest]
    · rename_i hfits
      rw [FadedFrom.append_iff rfl, fadedFrom_self_iff, fadedFrom_past_iff hlen' hp (by omega)]

/-- For every buffer, every length and every sequence of buffers: the fade-out is
right exactly if every sample scales right, and the fade-in exactly if moreover
the buffer in which it ends is silent up to there and no later one is scaled. -/
theorem fades_iff (buf : List Int16) (hbuf : buf.length < 2 ^ 32) (len : UInt32) (bufs : List (List Int16))
    (hlen : ∀ buf ∈ bufs, buf.length < 2 ^ 32) :
    (FadedOut buf (fadeout buf) ↔ ∀ j x, buf[j]? = some x → ScalesRight x (buf.length - j) buf.length) ∧
    (FadedIn len.toNat bufs.flatten (fadeinCalls (fadeinConfig len) bufs) ↔ FadesRight len.toNat 0 bufs) := by
  refine ⟨fadeout_iff hbuf, ?_⟩
  have h := fadedFrom_iff len 0 hlen (UInt32.le_iff_toNat_le.2 (Nat.zero_le _))
  simpa [FadedIn, fadeinConfig] using h

/-- Samples that are not negative, and a buffer that ends below the length before one of silence. -/
theorem fades_right : FadedOut [5, 6] (fadeout [5, 6]) ∧
    FadedIn 3 [1000, 1000, 0] (fadeinCalls (fadeinConfig 3) [[1000, 1000], [0]]) := by
  have h := fades_iff [5, 6] (by decide) 3 [[1000, 1000], [0]] (by decide)
  refine ⟨h.1.2 ?_, h.2.2 ?_⟩
  · intro j x hx
    rcases j with _ | _ | j
    · obtain rfl := Option.some.inj hx
      decide
    · obtain rfl := Option.some.inj hx
      decide
    · simp at hx
  · refine ⟨fun j x hx => ?_, fun j x hx _ => ?_, trivial⟩
    · rcases j with _ | _ | j
      · obtain rfl := Option.some.inj hx
        decide
      · obtain rfl := Option.some.inj hx
        decide
      · simp at hx
    · rcases j with _ | j
      · obtain rfl := Option.some.inj hx
        rfl
      · simp at hx

/-- Negative samples come out large and positive, and a buffer in which the fade
should end is not faded at all. -/
theorem fades_wrong :
    ¬ (FadedOut [-3, -3, -3] (fadeout [-3, -3, -3]) ∧
      FadedIn 4 [1000, 1000, 1000, 1000] (fadeinCalls (fadeinConfig 4) [[1000, 1000, 1000, 1000]])) ∧
    fadeout [-3, -3, -3] = [21842, 21843, 21844] ∧
    fadeinCalls (fadeinConfig 4) [[1000, 1000, 1000, 1000]] = [1000, 1000, 1000, 1000] := by
  decide

end BtApp.Fade
