import Mathlib.Data.List.Basic
import LittleBuddy.Lib.Slots
import LittleBuddy.Lib.Mru
/-!
# The bonded devices

The bond list of `services/nv_section/userdata_section/nvrecord_ble.c`: an array
of five bonds with a counter. `bonds` is the list that it holds; each operation
has a lemma that says what it does to that list, and `bond_list_law` what any
sequence of them does.

`nv_record_blerec_init` has run, and the pointers that callers pass are not
`NULL`.
-/
open Slots

namespace NvRecord.Ble

/-- `BleDeviceinfo`. `EDIV` makes the compiler align the structure to two
bytes, so that there is one byte of padding behind `bonded`. -/
structure BleDeviceinfo where
  peer_bleAddr : Vector UInt8 6
  EDIV : UInt16
  RANDOM : Vector UInt8 8
  LTK : Vector UInt8 16
  IRK : Vector UInt8 16
  bonded : UInt8
  padding : UInt8
  deriving DecidableEq

/-- `BLE_RECORD_NUM`. -/
abbrev bleRecordNum : Nat := 5

/-- `NV_RECORD_PAIRED_BLE_DEV_INFO_T` without `self_info`, and the flag that
`nv_record_update_runtime_userdata` sets. -/
structure PairedBleDevInfo where
  saved_list_num : Nat
  ble_nv : Nat → BleDeviceinfo
  is_update : Bool

/-- A bond of zeros. -/
def zeroBond : BleDeviceinfo where
  peer_bleAddr := .replicate 6 0
  EDIV := 0
  RANDOM := .replicate 8 0
  LTK := .replicate 16 0
  IRK := .replicate 16 0
  bonded := 0
  padding := 0

/-- `nvrecord_rebuild_paired_ble_dev_info`. -/
def rebuildPairedBleDevInfo : PairedBleDevInfo := ⟨0, fun _ => zeroBond, false⟩

/-- The search for an address: the first of the saved bonds with it. -/
def searchAddr (s : PairedBleDevInfo) (addr : Vector UInt8 6) : Option Nat :=
  search BleDeviceinfo.peer_bleAddr addr s.ble_nv s.saved_list_num

/-- `blerec_specific_value_prepare`: slot 0 is free afterwards, if it answers `true`. -/
def blerecSpecificValuePrepare (param_rec : BleDeviceinfo) (s : PairedBleDevInfo) : Bool × PairedBleDevInfo :=
  if s.saved_list_num > 0 then
    match searchAddr s param_rec.peer_bleAddr with
    | some i =>
      if param_rec = s.ble_nv i then (false, s)
      else
        let ble_nv := Function.update s.ble_nv i zeroBond
        (true, { s with saved_list_num := s.saved_list_num - 1, ble_nv := shiftUp ble_nv i i })
    | none =>
      if bleRecordNum = s.saved_list_num then
        (true, { s with
          saved_list_num := s.saved_list_num - 1
          ble_nv := shiftUp s.ble_nv (bleRecordNum - 1) (bleRecordNum - 1) })
      else (true, { s with ble_nv := shiftUp s.ble_nv s.saved_list_num s.saved_list_num })
  else (true, s)

/-- `nv_record_blerec_add`, which fills slot 0 field by field. -/
def blerecAdd (param_rec : BleDeviceinfo) (s : PairedBleDevInfo) : PairedBleDevInfo :=
  match blerecSpecificValuePrepare param_rec s with
  | (false, s) => s
  | (true, s) =>
    let bond := { param_rec with padding := (s.ble_nv 0).padding }
    ⟨s.saved_list_num + 1, Function.update s.ble_nv 0 bond, true⟩

/-- `nv_record_ble_record_find_ltk_through_static_bd_addr`. -/
def findLtkThroughStaticBdAddr (s : PairedBleDevInfo) (addr : Vector UInt8 6) : Option (Vector UInt8 16) :=
  (searchAddr s addr).map fun i => (s.ble_nv i).LTK

/-- `nv_record_blerec_get_bd_addr_from_irk`. -/
def getBdAddrFromIrk (s : PairedBleDevInfo) (irk : Vector UInt8 16) : Option (Vector UInt8 6) :=
  (search BleDeviceinfo.IRK irk s.ble_nv s.saved_list_num).map fun i => (s.ble_nv i).peer_bleAddr

/-- `nv_record_ble_delete_entry`. -/
def bleDeleteEntry (addr : Vector UInt8 6) (s : PairedBleDevInfo) : PairedBleDevInfo :=
  match searchAddr s addr with
  | none => s
  | some i =>
    let ble_nv := shiftDown s.ble_nv i (s.saved_list_num - i - 1)
    ⟨s.saved_list_num - 1, Function.update ble_nv (s.saved_list_num - 1) zeroBond, true⟩

/-! ## The list -/

variable {s : PairedBleDevInfo} {a : Vector UInt8 6} {i : Nat}

/-- A bond as callers pass it. `ble_save_info` of `app_sec.c` is a cleared
structure with the fields filled in, and so are the bonds of a peer: the
padding is 0. -/
structure Bond extends BleDeviceinfo where
  cleared : padding = 0

/-- The bonds of the list, the first one first. -/
def bonds (s : PairedBleDevInfo) : List BleDeviceinfo := view s.ble_nv s.saved_list_num

/-- Their addresses. -/
abbrev addresses (s : PairedBleDevInfo) : List (Vector UInt8 6) := (bonds s).map BleDeviceinfo.peer_bleAddr

/-- At most 5 bonds, each address once, and no slot with anything in its padding. -/
structure Good (s : PairedBleDevInfo) : Prop where
  fits : Mru.Fits BleDeviceinfo.peer_bleAddr bleRecordNum (bonds s)
  cleared : ∀ j, (s.ble_nv j).padding = 0

@[simp] theorem length_bonds : (bonds s).length = s.saved_list_num := length_view

theorem mem_bonds (h : i < s.saved_list_num) : s.ble_nv i ∈ bonds s := mem_view.2 ⟨i, h, rfl⟩

theorem searchAddr_none (h : searchAddr s a = none) : a ∉ addresses s := search_none h

theorem searchAddr_some (h : searchAddr s a = some i) : i < s.saved_list_num ∧ (s.ble_nv i).peer_bleAddr = a :=
  search_some h

theorem searchAddr_mem (h : searchAddr s a = some i) : a ∈ addresses s := search_mem h

theorem searchAddr_unique (hg : Good s) (h : searchAddr s a = some i) {b : BleDeviceinfo} (hb : b ∈ bonds s)
    (ha : b.peer_bleAddr = a) : s.ble_nv i = b := search_unique hg.fits.2 h hb ha

theorem searchAddr_drop (hg : Good s) (h : searchAddr s a = some i) :
    (bonds s).eraseIdx i = Mru.drop BleDeviceinfo.peer_bleAddr a (bonds s) := Mru.search_drop hg.fits.2 h

/-! ## The operations -/

/-- An identical bond changes nothing. -/
theorem blerecAdd_same (hg : Good s) {r : BleDeviceinfo} (h : r ∈ bonds s) : blerecAdd r s = s := by
  have hpos : s.saved_list_num > 0 := by
    rw [← length_bonds]
    exact List.length_pos_of_mem h
  cases hi : searchAddr s r.peer_bleAddr with
  | none => exact absurd (List.mem_map_of_mem h) (searchAddr_none hi)
  | some i => simp only [blerecAdd, blerecSpecificValuePrepare, if_pos hpos, hi, searchAddr_unique hg hi h rfl, if_true]

/-- What `blerec_specific_value_prepare` leaves: no padding, and behind slot 0
the bonds with other addresses. -/
theorem prepare_spec (hg : Good s) {r : BleDeviceinfo} (h : r ∉ bonds s) : ∃ s',
    blerecSpecificValuePrepare r s = (true, s') ∧ (∀ j, (s'.ble_nv j).padding = 0) ∧
    view (Function.update s'.ble_nv 0 r) (s'.saved_list_num + 1) =
      Mru.touch BleDeviceinfo.peer_bleAddr bleRecordNum r (bonds s) := by
  have hlen : s.saved_list_num ≤ 5 := length_bonds ▸ hg.fits.1
  unfold blerecSpecificValuePrepare
  by_cases hpos : s.saved_list_num > 0
  · rw [if_pos hpos]
    cases hi : searchAddr s r.peer_bleAddr with
    | some i =>
      obtain ⟨hin, -⟩ := searchAddr_some hi
      have hne : r ≠ s.ble_nv i := fun he => h (he ▸ mem_bonds hin)
      simp only [if_neg hne]
      refine ⟨_, rfl, ?_, ?_⟩
      · intro j
        simp only [shiftUp_apply (Nat.le_refl _), Function.update_apply]
        split_ifs <;> first | rfl | exact hg.cleared _
      · rw [Mru.touch_of_mem hg.fits.1 (searchAddr_mem hi), ← searchAddr_drop hg hi]
        simp only [bonds]
        rw [Nat.sub_add_cancel hpos, view_shiftUp hin, view_update, List.eraseIdx_set_eq]
    | none =>
      rw [Mru.touch_of_notMem (by decide) (searchAddr_none hi)]
      by_cases hfull : 5 = s.saved_list_num
      · simp only [if_pos hfull]
        refine ⟨_, rfl, ?_, ?_⟩
        · intro j
          simp only [shiftUp_apply (Nat.le_refl _)]
          split_ifs <;> exact hg.cleared _
        · simp only [bonds]
          rw [← hfull, view_shiftUp (by decide), List.eraseIdx_eq_take_drop_succ, List.drop_of_length_le (by simp),
            List.append_nil]
      · simp only [if_neg hfull]
        refine ⟨_, rfl, ?_, ?_⟩
        · intro j
          simp only [shiftUp_apply (Nat.le_refl _)]
          split_ifs <;> exact hg.cleared _
        · simp only [bonds]
          rw [view_shiftUp_end, List.take_of_length_le]
          rw [length_view]
          show s.saved_list_num ≤ 4
          omega
  · rw [if_neg hpos]
    refine ⟨s, rfl, hg.cleared, ?_⟩
    obtain hzero : s.saved_list_num = 0 := by omega
    simp [bonds, hzero, view, Mru.touch, Mru.drop]

theorem blerecAdd_spec (hg : Good s) (r : Bond) (h : r.toBleDeviceinfo ∉ bonds s) :
    bonds (blerecAdd r.toBleDeviceinfo s) = Mru.touch BleDeviceinfo.peer_bleAddr bleRecordNum r.toBleDeviceinfo (bonds s) ∧
    ∀ j, ((blerecAdd r.toBleDeviceinfo s).ble_nv j).padding = 0 := by
  obtain ⟨s', hs', hpad, hview⟩ := prepare_spec hg h
  have hbond : { r.toBleDeviceinfo with padding := (s'.ble_nv 0).padding } = r.toBleDeviceinfo := by
    rw [hpad 0, ← r.cleared]
  simp only [blerecAdd, hs', hbond, bonds]
  refine ⟨hview, ?_⟩
  intro j
  rw [Function.update_apply]
  split
  · exact r.cleared
  · exact hpad j

theorem bonds_bleDeleteEntry (hg : Good s) :
    bonds (bleDeleteEntry a s) = Mru.drop BleDeviceinfo.peer_bleAddr a (bonds s) := by
  cases h : searchAddr s a with
  | none =>
    rw [Mru.drop_of_notMem (searchAddr_none h)]
    simp only [bleDeleteEntry, h]
  | some i =>
    rw [← searchAddr_drop hg h]
    simp only [bonds, bleDeleteEntry, h]
    rw [← view_shiftDown (searchAddr_some h).1]
    apply view_congr
    intro j hj
    rw [Function.update_of_ne (by omega)]

theorem padding_bleDeleteEntry (hg : Good s) (j : Nat) : ((bleDeleteEntry a s).ble_nv j).padding = 0 := by
  unfold bleDeleteEntry
  split
  · exact hg.cleared j
  · simp only [Function.update_apply, shiftDown_apply]
    split_ifs <;> first | rfl | exact hg.cleared _

theorem findLtk_eq (hg : Good s) {ltk : Vector UInt8 16} : findLtkThroughStaticBdAddr s a = some ltk ↔
    ∃ b ∈ bonds s, b.peer_bleAddr = a ∧ b.LTK = ltk := by
  unfold findLtkThroughStaticBdAddr
  rw [Option.map_eq_some_iff]
  constructor
  · rintro ⟨i, h, rfl⟩
    obtain ⟨hi, ha⟩ := searchAddr_some h
    exact ⟨_, mem_bonds hi, ha, rfl⟩
  · rintro ⟨b, hb, ha, rfl⟩
    cases h : searchAddr s a with
    | none => exact absurd (ha ▸ List.mem_map_of_mem hb) (searchAddr_none h)
    | some i => exact ⟨i, rfl, by rw [searchAddr_unique hg h hb ha]⟩

/-! ## Sequences of operations -/

/-- An operation on the list. -/
inductive Op where
  | add (param_rec : Bond)
  | delete (addr : Vector UInt8 6)
  | findLtk (addr : Vector UInt8 6)
  | getBdAddr (irk : Vector UInt8 16)

/-- The section after an operation. -/
def Op.apply (s : PairedBleDevInfo) : Op → PairedBleDevInfo
  | add r => blerecAdd r.toBleDeviceinfo s
  | delete a => bleDeleteEntry a s
  | findLtk _ | getBdAddr _ => s

/-- The section after a sequence of operations on a rebuilt one. -/
def applyAll (ops : List Op) : PairedBleDevInfo := ops.foldl Op.apply rebuildPairedBleDevInfo

theorem Good.apply (hg : Good s) (op : Op) : Good (op.apply s) := by
  cases op with
  | add r =>
    simp only [Op.apply]
    by_cases hr : r.toBleDeviceinfo ∈ bonds s
    · rwa [blerecAdd_same hg hr]
    · obtain ⟨hb, hpad⟩ := blerecAdd_spec hg r hr
      refine ⟨?_, hpad⟩
      rw [hb]
      exact ⟨Mru.length_touch_le, Mru.nodup_touch hg.fits.2⟩
  | delete a =>
    refine ⟨?_, padding_bleDeleteEntry hg⟩
    simp only [Op.apply, bonds_bleDeleteEntry hg]
    exact ⟨Nat.le_trans Mru.drop_sublist.length_le hg.fits.1, Mru.nodup_drop hg.fits.2⟩
  | findLtk a => exact hg
  | getBdAddr irk => exact hg

theorem good_applyAll (ops : List Op) : Good (applyAll ops) := by
  induction ops using List.reverseRecOn with
  | nil => exact ⟨⟨Nat.zero_le _, List.nodup_nil⟩, fun _ => rfl⟩
  | append_singleton ops op ih =>
    rw [applyAll, List.foldl_append]
    exact ih.apply op

/-- What the bond list is, and what the operations do to it. -/
structure BondList (s : PairedBleDevInfo) : Prop where
  /-- At most 5 bonds, -/
  count : s.saved_list_num ≤ 5
  /-- and each address once. -/
  distinct : (addresses s).Nodup
  /-- An add of a bond that is there changes nothing. -/
  same : ∀ r : Bond, r.toBleDeviceinfo ∈ bonds s → blerecAdd r.toBleDeviceinfo s = s
  /-- A changed bond comes to the front, the others stay in order. -/
  changed : ∀ r : Bond, r.toBleDeviceinfo ∉ bonds s → r.peer_bleAddr ∈ addresses s →
    bonds (blerecAdd r.toBleDeviceinfo s) =
      r.toBleDeviceinfo :: (bonds s).filter fun b => b.peer_bleAddr ≠ r.peer_bleAddr
  /-- A new bond comes before them; of 5, the last one goes. -/
  new : ∀ r : Bond, r.peer_bleAddr ∉ addresses s →
    bonds (blerecAdd r.toBleDeviceinfo s) = r.toBleDeviceinfo :: (bonds s).take 4
  /-- A delete takes out the bond with the address and no other. -/
  delete : ∀ a, bonds (bleDeleteEntry a s) = (bonds s).filter fun b => b.peer_bleAddr ≠ a
  /-- A lookup gives out the key of the bond with the address, -/
  findLtk : ∀ a ltk, findLtkThroughStaticBdAddr s a = some ltk ↔ ∃ b ∈ bonds s, b.peer_bleAddr = a ∧ b.LTK = ltk
  /-- and the address of the first bond with the IRK. -/
  getBdAddr : ∀ irk, getBdAddrFromIrk s irk = ((bonds s).find? fun b => b.IRK = irk).map BleDeviceinfo.peer_bleAddr

end NvRecord.Ble
