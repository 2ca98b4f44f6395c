import Mathlib.Data.List.Basic
import LittleBuddy.Lib.Slots
import LittleBuddy.Lib.Mru
/-!
# The paired devices

The pairing list of `services/nv_section/userdata_section/nvrecord_bt.c`: an
array of device records with a counter. `devices` is the list that it holds;
each operation has a lemma that says what it does to that list, and
`pairing_list_mru` says what any sequence of them does.

The section exists and the pointers that callers pass are not `NULL`.
-/
open Slots

namespace NvRecord.Bt

/-- `bt_bdaddr_t`. -/
abbrev BdAddr := Vector UInt8 6

/-- `btif_device_record_t`, which is copied and compared as a whole. -/
structure BtifDeviceRecord where
  bdAddr : BdAddr
  trusted : UInt8
  linkKey : Vector UInt8 16
  keyType : UInt8
  pinLen : UInt8
  deriving DecidableEq

/-- `btdevice_volume`. -/
structure BtdeviceVolume where
  a2dp_vol : Int
  hfp_vol : Int
  deriving DecidableEq

/-- `btdevice_profile`. -/
structure BtdeviceProfile where
  hfp_act : Bool
  hsp_act : Bool
  a2dp_act : Bool
  a2dp_codectype : UInt8
  deriving DecidableEq

/-- `nvrec_btdevicerecord`. -/
structure NvrecBtdevicerecord where
  record : BtifDeviceRecord
  device_vol : BtdeviceVolume
  device_plf : BtdeviceProfile
  vend_id : UInt16
  vend_id_source : UInt16
  reserve : UInt16
  deriving DecidableEq

/-- `MAX_BT_PAIRED_DEVICE_COUNT`. -/
abbrev maxBtPairedDeviceCount : Nat := 8

/-- `NV_RECORD_PAIRED_BT_DEV_INFO_T`, and the flag that
`nv_record_update_runtime_userdata` sets. -/
structure PairedBtDevInfo where
  pairedDevNum : Nat
  pairedBtDevInfo : Nat → NvrecBtdevicerecord
  is_update : Bool

/-- A record of zeros. -/
def zeroDevice : NvrecBtdevicerecord where
  record := ⟨.replicate 6 0, 0, .replicate 16 0, 0, 0⟩
  device_vol := ⟨0, 0⟩
  device_plf := ⟨false, false, false, 0⟩
  vend_id := 0
  vend_id_source := 0
  reserve := 0

/-- `nvrecord_rebuild_paired_bt_dev_info`. -/
def rebuildPairedBtDevInfo : PairedBtDevInfo := ⟨0, fun _ => zeroDevice, false⟩

/-- `nv_record_get_bt_pairing_info_index`, with `none` for -1. -/
def getBtPairingInfoIndex (s : PairedBtDevInfo) (btAddr : BdAddr) : Option Nat :=
  search (fun d => d.record.bdAddr) btAddr s.pairedBtDevInfo s.pairedDevNum

/-- What `nv_record_ddbrec_add` puts over the slot of a new device, where
`volDefault` is `AUDIO_OUTPUT_VOLUME_DEFAULT`. The codec type is left. -/
def fillDefault (volDefault : Int) (param_rec : BtifDeviceRecord) (d : NvrecBtdevicerecord) : NvrecBtdevicerecord :=
  { d with
    record := param_rec
    device_vol := ⟨volDefault, volDefault⟩
    device_plf := { d.device_plf with hfp_act := false, hsp_act := false, a2dp_act := false }
    vend_id := 0
    vend_id_source := 0 }

/-- `nv_record_ddbrec_add`. -/
def ddbrecAdd (volDefault : Int) (param_rec : BtifDeviceRecord) (s : PairedBtDevInfo) : PairedBtDevInfo :=
  match getBtPairingInfoIndex s param_rec.bdAddr with
  | none =>
    let (info, num) :=
      if maxBtPairedDeviceCount = s.pairedDevNum then
        (shiftUp s.pairedBtDevInfo (maxBtPairedDeviceCount - 1) (maxBtPairedDeviceCount - 1), s.pairedDevNum - 1)
      else (shiftUp s.pairedBtDevInfo s.pairedDevNum s.pairedDevNum, s.pairedDevNum)
    ⟨num + 1, Function.update info 0 (fillDefault volDefault param_rec (info 0)), true⟩
  | some indexOfEntry =>
    if indexOfEntry > 0 then
      let record := s.pairedBtDevInfo indexOfEntry
      let info := Function.update (shiftUp s.pairedBtDevInfo indexOfEntry indexOfEntry) 0 record
      { s with pairedBtDevInfo := Function.update info 0 { info 0 with record := param_rec }, is_update := true }
    else if (s.pairedBtDevInfo 0).record ≠ param_rec then
      { s with
        pairedBtDevInfo := Function.update s.pairedBtDevInfo 0 { s.pairedBtDevInfo 0 with record := param_rec }
        is_update := true }
    else s

/-- `nv_record_ddbrec_find`, with `none` for `BT_STS_FAILED`. -/
def ddbrecFind (s : PairedBtDevInfo) (bd_ddr : BdAddr) : Option BtifDeviceRecord :=
  (getBtPairingInfoIndex s bd_ddr).map fun indexOfEntry => (s.pairedBtDevInfo indexOfEntry).record

/-- `nv_record_ddbrec_delete`; the first component is whether it succeeds. -/
def ddbrecDelete (bdaddr : BdAddr) (s : PairedBtDevInfo) : Bool × PairedBtDevInfo :=
  match getBtPairingInfoIndex s bdaddr with
  | none => (false, s)
  | some indexOfEntry =>
    let info := shiftDown s.pairedBtDevInfo indexOfEntry (s.pairedDevNum - indexOfEntry - 1)
    (true, ⟨s.pairedDevNum - 1, Function.update info (s.pairedDevNum - 1) zeroDevice, true⟩)

/-- A volume or a profile state, as the setters of the file take it. -/
inductive DeviceValue where
  | a2dpVol (vol : Int)
  | hfpVol (vol : Int)
  | a2dpAct (isActive : Bool)
  | hfpAct (isActive : Bool)
  | hspAct (isActive : Bool)
  | a2dpCodec (a2dpCodec : UInt8)

/-- `nv_record_btdevicevolume_set_a2dp_vol`, `_set_hfp_vol`,
`nv_record_btdevicerecord_set_a2dp_profile_active_state`, `_hfp_`, `_hsp_`,
and `_set_a2dp_profile_codec`. -/
def DeviceValue.set : DeviceValue → NvrecBtdevicerecord → NvrecBtdevicerecord
  | a2dpVol vol, d => { d with device_vol := { d.device_vol with a2dp_vol := vol } }
  | hfpVol vol, d => { d with device_vol := { d.device_vol with hfp_vol := vol } }
  | a2dpAct isActive, d => { d with device_plf := { d.device_plf with a2dp_act := isActive } }
  | hfpAct isActive, d => { d with device_plf := { d.device_plf with hfp_act := isActive } }
  | hspAct isActive, d => { d with device_plf := { d.device_plf with hsp_act := isActive } }
  | a2dpCodec codec, d => { d with device_plf := { d.device_plf with a2dp_codectype := codec } }

/-- A setter on the pointer that `nv_record_btdevicerecord_find` gives out. -/
def btdevicerecordSet (bd_ddr : BdAddr) (v : DeviceValue) (s : PairedBtDevInfo) : PairedBtDevInfo :=
  match getBtPairingInfoIndex s bd_ddr with
  | none => s
  | some indexOfEntry =>
    let d := s.pairedBtDevInfo indexOfEntry
    { s with
      pairedBtDevInfo := Function.update s.pairedBtDevInfo indexOfEntry (v.set d)
      is_update := s.is_update || decide (v.set d ≠ d) }

/-! ## The list -/

variable {s : PairedBtDevInfo} {a : BdAddr} {r : BtifDeviceRecord} {i : Nat}

abbrev NvrecBtdevicerecord.addr (d : NvrecBtdevicerecord) : BdAddr := d.record.bdAddr

/-- The devices of the list, the first one first. -/
def devices (s : PairedBtDevInfo) : List NvrecBtdevicerecord := view s.pairedBtDevInfo s.pairedDevNum

/-- Their addresses. -/
abbrev addresses (s : PairedBtDevInfo) : List BdAddr := (devices s).map NvrecBtdevicerecord.addr

/-- At most 8 devices, and each address once. -/
abbrev Good (s : PairedBtDevInfo) : Prop := Mru.Fits NvrecBtdevicerecord.addr maxBtPairedDeviceCount (devices s)

@[simp] theorem length_devices : (devices s).length = s.pairedDevNum := length_view

theorem mem_devices (h : i < s.pairedDevNum) : s.pairedBtDevInfo i ∈ devices s := mem_view.2 ⟨i, h, rfl⟩

theorem index_none (h : getBtPairingInfoIndex s a = none) : a ∉ addresses s := search_none h

theorem index_some (h : getBtPairingInfoIndex s a = some i) :
    i < s.pairedDevNum ∧ (s.pairedBtDevInfo i).addr = a := search_some h

theorem index_mem (h : getBtPairingInfoIndex s a = some i) : a ∈ addresses s := search_mem h

theorem index_unique (hg : Good s) (h : getBtPairingInfoIndex s a = some i) {d : NvrecBtdevicerecord}
    (hd : d ∈ devices s) (ha : d.addr = a) : s.pairedBtDevInfo i = d := search_unique hg.2 h hd ha

theorem index_drop (hg : Good s) (h : getBtPairingInfoIndex s a = some i) :
    (devices s).eraseIdx i = Mru.drop NvrecBtdevicerecord.addr a (devices s) := Mru.search_drop hg.2 h

/-! ## The operations -/

/-- The device that an add puts to the front: the old one with the new record,
or else a new one. -/
def addedDevice (volDefault : Int) (r : BtifDeviceRecord) (s : PairedBtDevInfo) : NvrecBtdevicerecord :=
  match getBtPairingInfoIndex s r.bdAddr with
  | none => fillDefault volDefault r (s.pairedBtDevInfo 0)
  | some i => { s.pairedBtDevInfo i with record := r }

theorem addedDevice_record (volDefault : Int) (r : BtifDeviceRecord) (s : PairedBtDevInfo) :
    (addedDevice volDefault r s).record = r := by
  unfold addedDevice
  split <;> rfl

theorem addedDevice_of_mem (volDefault : Int) (hg : Good s) {d : NvrecBtdevicerecord} (hd : d ∈ devices s)
    (ha : d.addr = r.bdAddr) : addedDevice volDefault r s = { d with record := r } := by
  unfold addedDevice
  split
  · rename_i h
    exact absurd (ha ▸ List.mem_map_of_mem hd) (index_none h)
  · rename_i i h
    rw [index_unique hg h hd ha]

theorem devices_ddbrecAdd (volDefault : Int) (hg : Good s) : devices (ddbrecAdd volDefault r s) =
    Mru.touch NvrecBtdevicerecord.addr maxBtPairedDeviceCount (addedDevice volDefault r s) (devices s) := by
  have hlen : s.pairedDevNum ≤ 8 := length_devices ▸ hg.1
  have hrec : (addedDevice volDefault r s).addr = r.bdAddr := congrArg _ (addedDevice_record ..)
  cases h : getBtPairingInfoIndex s r.bdAddr with
  | none =>
    rw [Mru.touch_of_notMem (by decide) (hrec ▸ index_none h)]
    simp only [devices, ddbrecAdd, addedDevice, h]
    by_cases hfull : 8 = s.pairedDevNum
    · rw [if_pos hfull, ← hfull]
      simp only [shiftUp_zero]
      rw [view_shiftUp (by decide), List.eraseIdx_eq_take_drop_succ, List.drop_of_length_le (by simp), List.append_nil]
    · rw [if_neg hfull]
      simp only [shiftUp_zero]
      rw [view_shiftUp_end, List.take_of_length_le (by rw [length_view]; show s.pairedDevNum ≤ 7; omega)]
  | some i =>
    rw [Mru.touch_of_mem hg.1 (hrec ▸ index_mem h), hrec, ← index_drop hg h]
    have hi := (index_some h).1
    simp only [devices, ddbrecAdd, addedDevice, h]
    by_cases h0 : i > 0
    · rw [if_pos h0, Function.update_idem, Function.update_self]
      exact view_shiftUp hi _
    · obtain rfl : i = 0 := by omega
      rw [if_neg h0]
      -- at the front nothing moves
      have hfront : view (Function.update s.pairedBtDevInfo 0 { s.pairedBtDevInfo 0 with record := r })
          s.pairedDevNum = { s.pairedBtDevInfo 0 with record := r } :: (view s.pairedBtDevInfo s.pairedDevNum).eraseIdx 0 :=
        view_shiftUp hi _
      split_ifs with hr
      · exact hfront
      · rw [← hfront, ← not_not.1 hr, Function.update_eq_self]

theorem devices_ddbrecDelete (hg : Good s) :
    devices (ddbrecDelete a s).2 = Mru.drop NvrecBtdevicerecord.addr a (devices s) := by
  cases h : getBtPairingInfoIndex s a with
  | none =>
    rw [Mru.drop_of_notMem (index_none h)]
    simp only [ddbrecDelete, h]
  | some i =>
    rw [← index_drop hg h]
    simp only [devices, ddbrecDelete, h]
    rw [← view_shiftDown (index_some h).1]
    apply view_congr
    intro j hj
    rw [Function.update_of_ne (by omega)]

theorem ddbrecDelete_ok : (ddbrecDelete a s).1 = true ↔ a ∈ addresses s := by
  cases h : getBtPairingInfoIndex s a with
  | none => simp only [ddbrecDelete, h, index_none h, Bool.false_eq_true]
  | some i => simp only [ddbrecDelete, h, index_mem h]

theorem ddbrecFind_eq (hg : Good s) : ddbrecFind s a = some r ↔ r ∈ (devices s).map (·.record) ∧ r.bdAddr = a := by
  unfold ddbrecFind
  rw [List.mem_map, Option.map_eq_some_iff]
  constructor
  · rintro ⟨i, h, rfl⟩
    exact ⟨⟨_, mem_devices (index_some h).1, rfl⟩, (index_some h).2⟩
  · rintro ⟨⟨d, hd, rfl⟩, ha⟩
    cases h : getBtPairingInfoIndex s a with
    | none => exact absurd (ha ▸ List.mem_map_of_mem hd) (index_none h)
    | some i => exact ⟨i, rfl, by rw [index_unique hg h hd ha]⟩

theorem DeviceValue.set_record (v : DeviceValue) (d : NvrecBtdevicerecord) : (v.set d).record = d.record := by
  cases v <;> rfl

/-- A setter changes one device, and neither its record nor its place. -/
theorem devices_btdevicerecordSet (hg : Good s) (v : DeviceValue) :
    devices (btdevicerecordSet a v s) = (devices s).map fun d => if d.addr = a then v.set d else d := by
  unfold devices
  rw [map_view]
  cases h : getBtPairingInfoIndex s a with
  | none =>
    simp only [btdevicerecordSet, h]
    apply view_congr
    intro j hj
    have hja : (s.pairedBtDevInfo j).addr ∈ addresses s := List.mem_map_of_mem (mem_devices hj)
    rw [if_neg]
    rintro rfl
    exact index_none h hja
  | some i =>
    obtain ⟨hi, ha⟩ := index_some h
    have hnd := hg.2
    rw [devices, map_view] at hnd
    simp only [btdevicerecordSet, h]
    apply view_congr
    intro j hj
    by_cases hji : j = i
    · rw [hji, Function.update_self, if_pos ha]
    · rw [Function.update_of_ne hji, if_neg fun hja => hji (view_inj hnd hj hi (hja.trans ha.symm))]

theorem records_btdevicerecordSet (hg : Good s) (v : DeviceValue) :
    (devices (btdevicerecordSet a v s)).map (·.record) = (devices s).map (·.record) := by
  rw [devices_btdevicerecordSet hg, List.map_map]
  apply List.map_congr_left
  intro d _
  simp only [Function.comp]
  split
  · rw [DeviceValue.set_record]
  · rfl

/-! ## Sequences of operations -/

/-- An operation on the list. -/
inductive Op where
  | add (param_rec : BtifDeviceRecord)
  | delete (bdaddr : BdAddr)
  | find (bd_ddr : BdAddr)
  | set (bd_ddr : BdAddr) (v : DeviceValue)

/-- The section after an operation. -/
def Op.apply (volDefault : Int) (s : PairedBtDevInfo) : Op → PairedBtDevInfo
  | add r => ddbrecAdd volDefault r s
  | delete a => (ddbrecDelete a s).2
  | find _ => s
  | set a v => btdevicerecordSet a v s

/-- The section after a sequence of operations on a rebuilt one. -/
def applyAll (volDefault : Int) (ops : List Op) : PairedBtDevInfo :=
  ops.foldl (Op.apply volDefault) rebuildPairedBtDevInfo

/-- What an operation does to the records. -/
def Op.onRecords : Op → Mru.Op BtifDeviceRecord BdAddr
  | add r => .add r
  | delete a => .remove a
  | find _ | set _ _ => .keep

/-- The number of the last operation that adds `a`, from 1. -/
def lastAdd (ops : List Op) (a : BdAddr) : Nat := Mru.lastAdd BtifDeviceRecord.bdAddr (ops.map Op.onRecords) a

/-- The operation replaces, deletes or evicts the record of `a`. -/
def Op.Clears (s : PairedBtDevInfo) (a : BdAddr) : Op → Prop
  | add r => r.bdAddr = a ∨ (r.bdAddr ∉ addresses s ∧ s.pairedDevNum = maxBtPairedDeviceCount ∧
      ∃ d, (devices s).getLast? = some d ∧ d.addr = a)
  | delete b => b = a
  | find _ | set _ _ => False

variable {volDefault : Int} {ops : List Op}

theorem Good.of_records {s' : PairedBtDevInfo} (hg : Good s)
    (h : (devices s').map (·.record) = (devices s).map (·.record)) : Good s' := by
  have hlen : (devices s').length = (devices s).length := by simpa using congrArg List.length h
  have haddr : addresses s' = addresses s := by
    simpa [Function.comp_def] using congrArg (List.map BtifDeviceRecord.bdAddr) h
  refine ⟨hlen ▸ hg.1, ?_⟩
  show (addresses s').Nodup
  rw [haddr]
  exact hg.2

theorem Good.apply (volDefault : Int) (hg : Good s) (op : Op) : Good (op.apply volDefault s) := by
  cases op with
  | add r =>
    simp only [Op.apply, Good, devices_ddbrecAdd volDefault hg]
    exact ⟨Mru.length_touch_le, Mru.nodup_touch hg.2⟩
  | delete a =>
    simp only [Op.apply, Good, devices_ddbrecDelete hg]
    exact ⟨Nat.le_trans Mru.drop_sublist.length_le hg.1, Mru.nodup_drop hg.2⟩
  | find a => exact hg
  | set a v => exact hg.of_records (records_btdevicerecordSet hg v)

theorem records_apply (volDefault : Int) (hg : Good s) (op : Op) : (devices (op.apply volDefault s)).map (·.record) =
    Mru.apply BtifDeviceRecord.bdAddr maxBtPairedDeviceCount ((devices s).map (·.record)) op.onRecords := by
  cases op with
  | add r =>
    simp only [Op.apply, Op.onRecords, Mru.apply, devices_ddbrecAdd volDefault hg]
    rw [Mru.map_touch BtifDeviceRecord.bdAddr NvrecBtdevicerecord.record, addedDevice_record]
  | delete a =>
    simp only [Op.apply, Op.onRecords, Mru.apply, devices_ddbrecDelete hg]
    exact Mru.map_drop BtifDeviceRecord.bdAddr NvrecBtdevicerecord.record
  | find a => rfl
  | set a v => exact records_btdevicerecordSet hg v

/-- After any sequence of operations the section holds the list that the same
operations make of records. -/
theorem applyAll_spec (volDefault : Int) (ops : List Op) : Good (applyAll volDefault ops) ∧ (devices (applyAll volDefault ops)).map (·.record) =
    Mru.applyAll BtifDeviceRecord.bdAddr maxBtPairedDeviceCount (ops.map Op.onRecords) := by
  induction ops using List.reverseRecOn with
  | nil => exact ⟨⟨Nat.zero_le _, List.nodup_nil⟩, rfl⟩
  | append_singleton ops op ih =>
    rw [applyAll, List.foldl_append, List.map_append, List.map_singleton, Mru.applyAll_snoc, ← ih.2]
    exact ⟨ih.1.apply volDefault op, records_apply volDefault ih.1 op⟩

theorem clears_iff (hg : Good s) (op : Op) :
    Mru.Clears BtifDeviceRecord.bdAddr maxBtPairedDeviceCount ((devices s).map (·.record)) a op.onRecords ↔
      op.Clears s a := by
  cases op with
  | add r =>
    have hlen : s.pairedDevNum ≤ 8 := length_devices ▸ hg.1
    simp only [Op.onRecords, Mru.Clears, Op.Clears, List.map_map, List.length_map, length_devices,
      List.getLast?_map, Option.map_eq_some_iff]
    refine or_congr Iff.rfl (and_congr Iff.rfl (and_congr ⟨Nat.le_antisymm hlen, fun h => Nat.le_of_eq h.symm⟩ ?_))
    constructor
    · rintro ⟨_, ⟨d, hd, rfl⟩, ha⟩
      exact ⟨d, hd, ha⟩
    · rintro ⟨d, hd, ha⟩
      exact ⟨_, ⟨d, hd, rfl⟩, ha⟩
  | delete b => rfl
  | find b => rfl
  | set b v => rfl

/-- What the pairing list is after the operations `ops` have led to `s`. -/
structure PairingList (volDefault : Int) (ops : List Op) (s : PairedBtDevInfo) : Prop where
  /-- At most 8 devices, -/
  count : s.pairedDevNum ≤ 8
  /-- each address once, -/
  distinct : (addresses s).Nodup
  /-- and the most recently added one first. -/
  recent : (devices s).Pairwise fun d e => lastAdd ops e.addr < lastAdd ops d.addr
  /-- An add of an address that is there moves its device to the front, with its
  own data, and the others stay in order. -/
  readd : ∀ r, ∀ d ∈ devices s, d.addr = r.bdAddr →
    devices (ddbrecAdd volDefault r s) = { d with record := r } :: (devices s).filter fun e => e.addr ≠ r.bdAddr
  /-- An add of another address puts a new device before them; of 8, the last one goes. -/
  add : ∀ r, r.bdAddr ∉ addresses s →
    ∃ d, d.record = r ∧ devices (ddbrecAdd volDefault r s) = d :: (devices s).take 7
  /-- A delete takes out the device with the address and no other. -/
  delete : ∀ a, ((ddbrecDelete a s).1 = true ↔ a ∈ addresses s) ∧
    devices (ddbrecDelete a s).2 = (devices s).filter fun d => d.addr ≠ a
  /-- A find gives out the record of the last add that was not deleted or evicted since. -/
  find : ∀ a r, ddbrecFind s a = some r ↔ r.bdAddr = a ∧ ∃ pre post, ops = pre ++ .add r :: post ∧
    ∀ p op q, post = p ++ op :: q → ¬ op.Clears (applyAll volDefault (pre ++ .add r :: p)) a

theorem find_iff {a : BdAddr} {r : BtifDeviceRecord} : ddbrecFind (applyAll volDefault ops) a = some r ↔
    r.bdAddr = a ∧ ∃ pre post, ops = pre ++ .add r :: post ∧
      ∀ p op q, post = p ++ op :: q → ¬ op.Clears (applyAll volDefault (pre ++ .add r :: p)) a := by
  rw [ddbrecFind_eq (applyAll_spec ..).1, (applyAll_spec ..).2, Mru.mem_applyAll (by decide), and_comm]
  refine and_congr_right fun ha => ?_
  subst ha
  constructor
  · rintro ⟨pre', post', he, h⟩
    obtain ⟨pre, rest, rfl, rfl, hrest⟩ := List.map_eq_append_iff.1 he
    obtain ⟨op, post, rfl, hop, rfl⟩ := List.map_eq_cons_iff.1 hrest
    obtain rfl : op = .add r := by cases op <;> cases hop; rfl
    refine ⟨pre, post, rfl, ?_⟩
    rintro p op q rfl
    have := h (p.map Op.onRecords) op.onRecords (q.map Op.onRecords) (by simp)
    rwa [← clears_iff (applyAll_spec ..).1, (applyAll_spec ..).2, List.map_append, List.map_cons]
  · rintro ⟨pre, post, rfl, h⟩
    refine ⟨pre.map Op.onRecords, post.map Op.onRecords, by simp [Op.onRecords], ?_⟩
    intro p' op' q' he
    obtain ⟨p, rest, rfl, rfl, hrest⟩ := List.map_eq_append_iff.1 he
    obtain ⟨op, q, rfl, rfl, rfl⟩ := List.map_eq_cons_iff.1 hrest
    have := h p op q rfl
    rwa [← clears_iff (applyAll_spec ..).1, (applyAll_spec ..).2, List.map_append, List.map_cons] at this

/-- The pairing list is a most-recently-used list. -/
theorem pairing_list_mru (volDefault : Int) (ops : List Op) : PairingList volDefault ops (applyAll volDefault ops) := by
  have hg : Good (applyAll volDefault ops) := (applyAll_spec ..).1
  have haddr : ∀ r, (addedDevice volDefault r (applyAll volDefault ops)).addr = r.bdAddr :=
    fun r => congrArg _ (addedDevice_record ..)
  refine ⟨length_devices ▸ hg.1, hg.2, ?_, ?_, ?_, fun a => ⟨ddbrecDelete_ok, devices_ddbrecDelete hg⟩,
    fun a r => find_iff⟩
  · have hsorted := Mru.applyAll_sorted BtifDeviceRecord.bdAddr maxBtPairedDeviceCount (ops.map Op.onRecords)
    rw [← (applyAll_spec volDefault ops).2, List.pairwise_map] at hsorted
    exact hsorted
  · intro r d hd ha
    have hmem : r.bdAddr ∈ addresses (applyAll volDefault ops) := ha ▸ List.mem_map_of_mem hd
    rw [devices_ddbrecAdd volDefault hg, Mru.touch_of_mem hg.1 (haddr r ▸ hmem), haddr r,
      addedDevice_of_mem volDefault hg hd ha]
    rfl
  · intro r hr
    refine ⟨addedDevice volDefault r (applyAll volDefault ops), addedDevice_record .., ?_⟩
    rw [devices_ddbrecAdd volDefault hg, Mru.touch_of_notMem (by decide) (haddr r ▸ hr)]
    rfl

/-! ## What a new device is made of -/

theorem index_eq_none (h : a ∉ addresses s) : getBtPairingInfoIndex s a = none := by
  cases hi : getBtPairingInfoIndex s a with
  | none => rfl
  | some i => exact absurd (index_mem hi) h

/-- A new device is written over the one that was first, which is still there. -/
theorem ddbrecAdd_front (volDefault : Int) (h : r.bdAddr ∉ addresses s) :
    (ddbrecAdd volDefault r s).pairedBtDevInfo 0 = fillDefault volDefault r (s.pairedBtDevInfo 0) := by
  simp only [ddbrecAdd, index_eq_none h]
  split
  · simp only [Function.update_self, shiftUp_zero]
  · simp only [Function.update_self, shiftUp_zero]

theorem fillDefault_eq_iff (volDefault : Int) (r : BtifDeviceRecord) (d e : NvrecBtdevicerecord) :
    fillDefault volDefault r d = fillDefault volDefault r e ↔
      d.device_plf.a2dp_codectype = e.device_plf.a2dp_codectype ∧ d.reserve = e.reserve := by
  simp [fillDefault]

/-- Two lists store the same new device exactly if the devices that were first
in them, or that the array held there, have one codec type and one `reserve`:
these two fields are the ones that `nv_record_ddbrec_add` does not set. -/
theorem new_device_iff (volDefault : Int) (r : BtifDeviceRecord) (s s' : PairedBtDevInfo)
    (h : r.bdAddr ∉ addresses s) (h' : r.bdAddr ∉ addresses s') :
    (ddbrecAdd volDefault r s).pairedBtDevInfo 0 = (ddbrecAdd volDefault r s').pairedBtDevInfo 0 ↔
      (s.pairedBtDevInfo 0).device_plf.a2dp_codectype = (s'.pairedBtDevInfo 0).device_plf.a2dp_codectype ∧
        (s.pairedBtDevInfo 0).reserve = (s'.pairedBtDevInfo 0).reserve := by
  rw [ddbrecAdd_front volDefault h, ddbrecAdd_front volDefault h', fillDefault_eq_iff]

/-- A record with the address `a:0:0:0:0:0`. -/
def recordOf (a : UInt8) : BtifDeviceRecord := ⟨#v[a, 0, 0, 0, 0, 0], 0, .replicate 16 0, 0, 0⟩

/-- Behind a device that was loud, a new one starts as in an empty list. -/
theorem new_device_loud :
    (ddbrecAdd 10 (recordOf 2) (applyAll 10 [.add (recordOf 1), .set (recordOf 1).bdAddr (.a2dpVol 15)])).pairedBtDevInfo 0 =
      (ddbrecAdd 10 (recordOf 2) (applyAll 10 [])).pairedBtDevInfo 0 :=
  (new_device_iff 10 (recordOf 2) _ _ (by decide) (by decide)).2 (by decide)

/-- Behind a device with another codec, it has that codec. -/
theorem codec_of_another :
    (recordOf 2).bdAddr ∉ addresses (applyAll 10 [.add (recordOf 1), .set (recordOf 1).bdAddr (.a2dpCodec 2)]) ∧
    (recordOf 2).bdAddr ∉ addresses (applyAll 10 []) ∧
    ((ddbrecAdd 10 (recordOf 2) (applyAll 10 [.add (recordOf 1), .set (recordOf 1).bdAddr (.a2dpCodec 2)])).pairedBtDevInfo
      0).device_plf.a2dp_codectype = 2 ∧
    (ddbrecAdd 10 (recordOf 2) (applyAll 10 [.add (recordOf 1), .set (recordOf 1).bdAddr (.a2dpCodec 2)])).pairedBtDevInfo 0 ≠
      (ddbrecAdd 10 (recordOf 2) (applyAll 10 [])).pairedBtDevInfo 0 := by
  refine ⟨by decide, by decide, by decide, by decide⟩

end NvRecord.Bt
