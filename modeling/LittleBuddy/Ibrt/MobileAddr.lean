import Mathlib.Algebra.Group.Nat.Defs
import Mathlib.Data.List.Sort
import LittleBuddy.NvRecord.PairedBt
/-!
# The latest mobiles

`services/app_ibrt/src/app_ibrt_nvrecord.cpp` looks for the mobiles among the
paired devices. It walks the list from its end, where it expects the latest
device; the store has that one at the front. `latest_mobiles` says when the
answers are right all the same.

`app_tws_ibrt_get_link_type_by_addr` is not in the repository: `isMobile` says
for which addresses it returns `MOBILE_LINK`.
-/

namespace NvRecord.Bt

variable (isMobile : BdAddr → Bool) (s : PairedBtDevInfo)

/-! ## The code -/

/-- `nv_record_get_paired_dev_count`. -/
def getPairedDevCount : Nat := s.pairedDevNum

/-- `nv_record_enum_dev_records`, with `none` for `BT_STS_FAILED`. -/
def enumDevRecords (index : Nat) : Option BtifDeviceRecord :=
  if index ≥ s.pairedDevNum then none else some (s.pairedBtDevInfo index).record

/-- The loop of `app_ibrt_nvrecord_get_latest_mobiles_addr`; `i + 1` of its
rounds are for the index `i`. -/
def latestLoop : Nat → Nat → BdAddr → BdAddr → Nat × BdAddr × BdAddr
  | 0, found, addr1, addr2 => (found, addr1, addr2)
  | i + 1, found, addr1, addr2 =>
    match enumDevRecords s i with
    | none => (found, addr1, addr2)
    | some record =>
      if isMobile record.bdAddr then
        if found + 1 = 1 then latestLoop i (found + 1) record.bdAddr addr2
        else if found + 1 = 2 then (found + 1, addr1, record.bdAddr)
        else latestLoop i (found + 1) addr1 addr2
      else latestLoop i found addr1 addr2

/-- `app_ibrt_nvrecord_get_latest_mobiles_addr`: the count, and what is then in
the two places, where `addr1` and `addr2` were. -/
def getLatestMobilesAddr (addr1 addr2 : BdAddr) : Nat × BdAddr × BdAddr :=
  latestLoop isMobile s (getPairedDevCount s) 0 addr1 addr2

/-- The loop of `app_ibrt_nvrecord_choice_mobile_addr`. -/
def choiceLoop (index : Nat) : Nat → Nat → Option BdAddr
  | 0, _ => none
  | i + 1, found =>
    match enumDevRecords s i with
    | none => none
    | some record =>
      if isMobile record.bdAddr then
        if found = index then some record.bdAddr else choiceLoop index i (found + 1)
      else choiceLoop index i found

/-- `app_ibrt_nvrecord_choice_mobile_addr`, with `none` for 0. -/
def choiceMobileAddr (index : Nat) : Option BdAddr :=
  if getPairedDevCount s < index + 1 then none else choiceLoop isMobile s index (getPairedDevCount s) 0

/-! ## What it finds -/

/-- The addresses of the mobiles, as the store has them. -/
def mobiles : List BdAddr := (addresses s).filter isMobile

/-- The mobiles among the first `i` devices, the last one first. -/
def mobilesBelow (i : Nat) : List BdAddr := (((addresses s).take i).filter isMobile).reverse

variable {isMobile s} {i found index : Nat} {addr1 addr2 : BdAddr}

theorem enumDevRecords_lt (h : i < s.pairedDevNum) : enumDevRecords s i = some (s.pairedBtDevInfo i).record :=
  if_neg (by omega)

theorem mobilesBelow_all : mobilesBelow isMobile s s.pairedDevNum = (mobiles isMobile s).reverse := by
  unfold mobilesBelow mobiles
  rw [List.take_of_length_le (by simp)]

theorem mobilesBelow_succ (h : i < s.pairedDevNum) : mobilesBelow isMobile s (i + 1) =
    if isMobile (s.pairedBtDevInfo i).addr then (s.pairedBtDevInfo i).addr :: mobilesBelow isMobile s i
    else mobilesBelow isMobile s i := by
  have hget : (addresses s)[i]? = some (s.pairedBtDevInfo i).addr := by
    have hlen : i < (addresses s).length := by simpa using h
    rw [List.getElem?_eq_getElem hlen, List.getElem_map]
    exact congrArg some (congrArg NvrecBtdevicerecord.addr (Slots.getElem_view _))
  unfold mobilesBelow
  rw [List.take_add_one, hget, List.filter_append, List.reverse_append]
  by_cases hm : isMobile (s.pairedBtDevInfo i).addr <;> simp [hm]

/-- Behind one mobile the loop only looks for the second place. -/
theorem latestLoop_one (h : i ≤ s.pairedDevNum) : latestLoop isMobile s i 1 addr1 addr2 =
    (min 2 ((mobilesBelow isMobile s i).length + 1), addr1, (mobilesBelow isMobile s i).getD 0 addr2) := by
  induction i with
  | zero => simp [latestLoop, mobilesBelow]
  | succ i ih =>
    have hi : i < s.pairedDevNum := h
    rw [latestLoop, enumDevRecords_lt hi, mobilesBelow_succ hi]
    by_cases hm : isMobile (s.pairedBtDevInfo i).addr
    · simp [hm]
    · simp only [hm, Bool.false_eq_true, if_false]
      exact ih (by omega)

theorem latestLoop_eq (h : i ≤ s.pairedDevNum) : latestLoop isMobile s i 0 addr1 addr2 =
    (min 2 (mobilesBelow isMobile s i).length, (mobilesBelow isMobile s i).getD 0 addr1,
      (mobilesBelow isMobile s i).getD 1 addr2) := by
  induction i with
  | zero => simp [latestLoop, mobilesBelow]
  | succ i ih =>
    have hi : i < s.pairedDevNum := h
    rw [latestLoop, enumDevRecords_lt hi, mobilesBelow_succ hi]
    by_cases hm : isMobile (s.pairedBtDevInfo i).addr
    · simp only [hm, if_true, Nat.zero_add]
      rw [latestLoop_one (by omega)]
      simp
    · simp only [hm, Bool.false_eq_true, if_false]
      exact ih (by omega)

theorem choiceLoop_eq (h : i ≤ s.pairedDevNum) (hf : found ≤ index) :
    choiceLoop isMobile s index i found = (mobilesBelow isMobile s i)[index - found]? := by
  induction i generalizing found with
  | zero => simp [choiceLoop, mobilesBelow]
  | succ i ih =>
    have hi : i < s.pairedDevNum := h
    rw [choiceLoop, enumDevRecords_lt hi, mobilesBelow_succ hi]
    by_cases hm : isMobile (s.pairedBtDevInfo i).addr
    · simp only [hm, if_true]
      by_cases hfi : found = index
      · simp [hfi]
      · rw [if_neg hfi, ih (by omega) (by omega)]
        obtain ⟨k, rfl⟩ : ∃ k, index = found + 1 + k := ⟨index - found - 1, by omega⟩
        rw [show found + 1 + k - found = k + 1 by omega, show found + 1 + k - (found + 1) = k by omega,
          List.getElem?_cons_succ]
    · simp only [hm, Bool.false_eq_true, if_false]
      exact ih (by omega) hf

theorem getLatestMobilesAddr_eq : getLatestMobilesAddr isMobile s addr1 addr2 =
    (min 2 (mobiles isMobile s).length, (mobiles isMobile s).reverse.getD 0 addr1,
      (mobiles isMobile s).reverse.getD 1 addr2) := by
  unfold getLatestMobilesAddr getPairedDevCount
  rw [latestLoop_eq (Nat.le_refl _), mobilesBelow_all, List.length_reverse]

theorem length_mobiles_le : (mobiles isMobile s).length ≤ s.pairedDevNum := by
  have h : (mobiles isMobile s).length ≤ (addresses s).length := List.length_filter_le ..
  simpa using h

theorem choiceMobileAddr_eq : choiceMobileAddr isMobile s index = (mobiles isMobile s).reverse[index]? := by
  unfold choiceMobileAddr getPairedDevCount
  split_ifs with h
  · have hlen : (mobiles isMobile s).length ≤ s.pairedDevNum := length_mobiles_le
    rw [List.getElem?_eq_none (by rw [List.length_reverse]; omega)]
  · rw [choiceLoop_eq (Nat.le_refl _) (Nat.zero_le _), mobilesBelow_all, Nat.sub_zero]

/-! ## What it should find -/

/-- The stored mobiles in the order of their last additions, the latest one first. -/
def recentMobiles (isMobile : BdAddr → Bool) (ops : List Op) (s : PairedBtDevInfo) : List BdAddr :=
  (mobiles isMobile s).mergeSort fun a b => decide (lastAdd ops b ≤ lastAdd ops a)

variable {volDefault : Int} {ops : List Op}

theorem nodup_mobiles : (mobiles isMobile (applyAll volDefault ops)).Nodup :=
  (applyAll_spec volDefault ops).1.2.filter _

/-- The store has them in that order. -/
theorem recentMobiles_eq :
    recentMobiles isMobile ops (applyAll volDefault ops) = mobiles isMobile (applyAll volDefault ops) := by
  have hrec := Mru.applyAll_sorted BtifDeviceRecord.bdAddr maxBtPairedDeviceCount (ops.map Op.onRecords)
  rw [← (applyAll_spec volDefault ops).2] at hrec
  have haddr : (addresses (applyAll volDefault ops)).Pairwise fun a b => lastAdd ops b < lastAdd ops a := by
    rw [List.pairwise_map] at hrec ⊢
    exact hrec
  apply List.mergeSort_of_pairwise
  refine (haddr.filter _).imp ?_
  intro a b hab
  exact decide_eq_true (Nat.le_of_lt hab)

/-- Of distinct elements, the one in a place of the reversed list is the one in
that place of the list in the middle only. -/
theorem getElem?_reverse_eq_iff {α : Type} {l : List α} (hd : l.Nodup) (index : Nat) :
    l.reverse[index]? = l[index]? ↔ l.length ≤ index ∨ l.length = 2 * index + 1 := by
  rcases Nat.lt_or_ge index l.length with h | h
  · rw [List.getElem?_reverse h, List.getElem?_eq_getElem h, List.getElem?_eq_getElem (by omega), Option.some_inj,
      hd.getElem_inj_iff]
    omega
  · rw [List.getElem?_eq_none h, List.getElem?_eq_none (by rwa [List.length_reverse])]
    simp [h]

/-- After any adds, deletes and setters, the two latest mobiles are given when
there is at most one, and the mobile of an index when there are too few or it is
the one in the middle; there is no answer exactly when there are too few. -/
theorem latest_mobiles (volDefault : Int) (isMobile : BdAddr → Bool) (ops : List Op) (addr1 addr2 : BdAddr) :
    (getLatestMobilesAddr isMobile (applyAll volDefault ops) addr1 addr2 =
        (min 2 (mobiles isMobile (applyAll volDefault ops)).length,
          (recentMobiles isMobile ops (applyAll volDefault ops)).getD 0 addr1,
          (recentMobiles isMobile ops (applyAll volDefault ops)).getD 1 addr2) ↔
      (mobiles isMobile (applyAll volDefault ops)).length ≤ 1) ∧
    ∀ index : Nat,
      (choiceMobileAddr isMobile (applyAll volDefault ops) index =
          (recentMobiles isMobile ops (applyAll volDefault ops))[index]? ↔
        (mobiles isMobile (applyAll volDefault ops)).length ≤ index ∨
          (mobiles isMobile (applyAll volDefault ops)).length = 2 * index + 1) ∧
      (choiceMobileAddr isMobile (applyAll volDefault ops) index = none ↔
        (mobiles isMobile (applyAll volDefault ops)).length ≤ index) := by
  have hd : (mobiles isMobile (applyAll volDefault ops)).Nodup := nodup_mobiles
  rw [recentMobiles_eq, getLatestMobilesAddr_eq]
  generalize hl : mobiles isMobile (applyAll volDefault ops) = l at hd
  refine ⟨?_, fun index => ⟨?_, ?_⟩⟩
  · rw [Prod.mk.injEq, Prod.mk.injEq]
    constructor
    · rintro ⟨-, h0, -⟩
      by_contra hlen
      -- the first and the last one of two or more are different
      have hswap : l.reverse[0]? = l[0]? := by
        rw [List.getD_eq_getElem?_getD, List.getD_eq_getElem?_getD, List.getElem?_eq_getElem (by simp; omega),
          List.getElem?_eq_getElem (l := l) (by omega)] at h0
        rw [List.getElem?_eq_getElem (by simp; omega), List.getElem?_eq_getElem (l := l) (by omega)]
        exact congrArg some h0
      have := (getElem?_reverse_eq_iff hd 0).1 hswap
      omega
    · intro hlen
      match l, hlen with
      | [], _ => exact ⟨rfl, rfl, rfl⟩
      | [a], _ => exact ⟨rfl, rfl, rfl⟩
  · rw [choiceMobileAddr_eq, hl]
    exact getElem?_reverse_eq_iff hd index
  · rw [choiceMobileAddr_eq, hl, List.getElem?_eq_none_iff, List.length_reverse]

/-- A phone with the address `a`. -/
def phone (a : UInt8) : BtifDeviceRecord := ⟨(recordOf a).bdAddr, 1, .replicate 16 0, 4, 0⟩

/-- Of two phones the one that was added first is given as the latest. -/
theorem oldest_first : getLatestMobilesAddr (fun _ => true) (applyAll 10 [.add (phone 1), .add (phone 2)])
      (phone 0).bdAddr (phone 0).bdAddr = (2, (phone 1).bdAddr, (phone 2).bdAddr) ∧
    recentMobiles (fun _ => true) [.add (phone 1), .add (phone 2)] (applyAll 10 [.add (phone 1), .add (phone 2)]) =
      [(phone 2).bdAddr, (phone 1).bdAddr] ∧
    choiceMobileAddr (fun _ => true) (applyAll 10 [.add (phone 1), .add (phone 2)]) 0 = some (phone 1).bdAddr := by
  rw [recentMobiles_eq]
  decide +kernel

end NvRecord.Bt
