import LittleBuddy.Lib.Runs
import LittleBuddy.NvRecord.PairedBt
/-!
# Volumes

`app_bt_stream.cpp` keeps the volumes of music and of calls in the record of a
device, in `current_btdevice_volume` and, for the stream that plays, in
`stream_local_volume`. `btdevice_volume_p` points into the array of paired
devices, whose records `nvrecord_bt.c` moves without telling it.
-/
open Runs NvRecord.Bt

namespace BtApp.Volume

/-! ## The volumes -/

/-- Of `TGT_VOLUME_LEVEL_T`. -/
abbrev TGT_VOLUME_LEVEL_MUTE : Int := 1

abbrev TGT_VOLUME_LEVEL_0 : Int := 2

abbrev TGT_VOLUME_LEVEL_15 : Int := 17

/-- `APP_BT_STREAM_INVALID`, `APP_BT_STREAM_HFP_PCM` and `APP_BT_STREAM_A2DP_SBC`. -/
abbrev APP_BT_STREAM_INVALID : BitVec 16 := 0

abbrev APP_BT_STREAM_HFP_PCM : BitVec 16 := 1

abbrev APP_BT_STREAM_A2DP_SBC : BitVec 16 := 8

inductive StreamType
  | a2dp | hfp
  deriving DecidableEq

/-- The field of a stream type. -/
def field (t : StreamType) (v : BtdeviceVolume) : Int :=
  match t with
  | .a2dp => v.a2dp_vol
  | .hfp => v.hfp_vol

def setField (t : StreamType) (x : Int) (v : BtdeviceVolume) : BtdeviceVolume :=
  match t with
  | .a2dp => { v with a2dp_vol := x }
  | .hfp => { v with hfp_vol := x }

/-- `AUDIO_OUTPUT_VOLUME_DEFAULT`, which is checked when the code is compiled. -/
structure Config where
  volDefault : Int
  inRange : 1 ≤ volDefault ∧ volDefault ≤ 17

def Config.volumes (c : Config) : BtdeviceVolume := ⟨c.volDefault, c.volDefault⟩

/-- The globals. `btdevice_volume_p` is the place in the array that the pointer
refers to, or `none` where it refers to `stream_volume`. `bound` is the device
that it was last bound to, as long as this one is in the store, and `applied`
the type that the last volume operation was for. -/
structure Sys where
  nv : PairedBtDevInfo
  stream_volume : BtdeviceVolume
  btdevice_volume_p : Option Nat
  current_btdevice_volume : BtdeviceVolume
  stream_local_volume : Int
  bound : Option BdAddr
  applied : StreamType

/-- `app_bt_stream_isrun`. -/
def appBtStreamIsrun (gStreamplayer player : BitVec 16) : Bool := gStreamplayer &&& player = player

/-- What a pointer refers to. -/
def Sys.volumeAt (s : Sys) : Option Nat → BtdeviceVolume
  | none => s.stream_volume
  | some i => (s.nv.pairedBtDevInfo i).device_vol

/-- `*btdevice_volume_p`. -/
def Sys.volume (s : Sys) : BtdeviceVolume := s.volumeAt s.btdevice_volume_p

/-- A write through `btdevice_volume_p`. -/
def Sys.store (t : StreamType) (x : Int) (s : Sys) : Sys :=
  match s.btdevice_volume_p with
  | none => { s with stream_volume := setField t x s.stream_volume }
  | some i =>
    let d := s.nv.pairedBtDevInfo i
    let info := Function.update s.nv.pairedBtDevInfo i { d with device_vol := setField t x d.device_vol }
    { s with nv := { s.nv with pairedBtDevInfo := info } }

/-- `nv_record_touch_cause_flush`. -/
def nvRecordTouchCauseFlush (s : Sys) : Sys := { s with nv := { s.nv with is_update := true } }

/-! ## The operations -/

/-- An assignment to an `int8_t`. -/
def int8 (x : Int) : Int := x.bmod 256

/-- `app_bt_stream_volumeset`, which also hands the volume to an open stream. -/
def appBtStreamVolumeset (vol : Int) (s : Sys) : Sys :=
  let vol := if vol > TGT_VOLUME_LEVEL_15 then TGT_VOLUME_LEVEL_15 else vol
  let vol := if vol < TGT_VOLUME_LEVEL_MUTE then TGT_VOLUME_LEVEL_MUTE else vol
  { s with stream_local_volume := vol }

/-- A branch of `app_bt_stream_volumeup`. -/
def volumeup (t : StreamType) (s : Sys) : Sys :=
  let updatedVol := int8 (field t s.volume + 1)
  let updatedVol := if updatedVol > TGT_VOLUME_LEVEL_15 then TGT_VOLUME_LEVEL_15 else updatedVol
  let s := s.store t updatedVol
  let s := { s with current_btdevice_volume := setField t updatedVol s.current_btdevice_volume, applied := t }
  if updatedVol < TGT_VOLUME_LEVEL_15 then appBtStreamVolumeset updatedVol s else s

/-- A branch of `app_bt_stream_volumedown`, with the level that it stops at. -/
def volumedown (t : StreamType) (least : Int) (s : Sys) : Sys :=
  let updatedVol := int8 (field t s.volume - 1)
  let updatedVol := if updatedVol < least then least else updatedVol
  let s := s.store t updatedVol
  let s := { s with current_btdevice_volume := setField t updatedVol s.current_btdevice_volume, applied := t }
  appBtStreamVolumeset updatedVol s

/-- A branch of `app_bt_set_volume`. -/
def setVolume (t : StreamType) (level : Int) (s : Sys) : Sys :=
  if level ≥ TGT_VOLUME_LEVEL_MUTE ∧ level ≤ TGT_VOLUME_LEVEL_15 then
    let s := s.store t level
    appBtStreamVolumeset (field t s.volume) { s with applied := t }
  else s

/-- `app_bt_stream_volumeup`. -/
def appBtStreamVolumeup (gStreamplayer : BitVec 16) (s : Sys) : Sys :=
  nvRecordTouchCauseFlush <|
    if appBtStreamIsrun gStreamplayer APP_BT_STREAM_HFP_PCM then volumeup .hfp s
    else if appBtStreamIsrun gStreamplayer APP_BT_STREAM_A2DP_SBC ∨ appBtStreamIsrun gStreamplayer APP_BT_STREAM_INVALID then
      volumeup .a2dp s
    else s

/-- `app_bt_stream_volumedown`. -/
def appBtStreamVolumedown (gStreamplayer : BitVec 16) (s : Sys) : Sys :=
  nvRecordTouchCauseFlush <|
    if appBtStreamIsrun gStreamplayer APP_BT_STREAM_HFP_PCM then volumedown .hfp TGT_VOLUME_LEVEL_0 s
    else if appBtStreamIsrun gStreamplayer APP_BT_STREAM_INVALID ∨ appBtStreamIsrun gStreamplayer APP_BT_STREAM_A2DP_SBC then
      volumedown .a2dp TGT_VOLUME_LEVEL_MUTE s
    else s

/-- Whether `app_bt_set_volume` sets a stream type. -/
def sets (gStreamplayer type : BitVec 16) : StreamType → Bool
  | .hfp => type &&& APP_BT_STREAM_HFP_PCM ≠ 0 ∧ appBtStreamIsrun gStreamplayer APP_BT_STREAM_HFP_PCM
  | .a2dp => type &&& APP_BT_STREAM_A2DP_SBC ≠ 0 ∧
      (appBtStreamIsrun gStreamplayer APP_BT_STREAM_INVALID ∨ appBtStreamIsrun gStreamplayer APP_BT_STREAM_A2DP_SBC)

/-- `app_bt_set_volume`. -/
def appBtSetVolume (gStreamplayer type : BitVec 16) (level : UInt8) (s : Sys) : Sys :=
  let s := if sets gStreamplayer type .hfp then setVolume .hfp level.toNat s else s
  let s := if sets gStreamplayer type .a2dp then setVolume .a2dp level.toNat s else s
  nvRecordTouchCauseFlush s

/-- Where `app_bt_stream_volume_ptr_update` makes the pointer refer to. -/
def place (nv : PairedBtDevInfo) (bdAddr : Option BdAddr) : Option Nat := bdAddr.bind (getBtPairingInfoIndex nv)

/-- `app_bt_stream_volume_ptr_update`, with `none` for `NULL`. -/
def appBtStreamVolumePtrUpdate (bdAddr : Option BdAddr) (s : Sys) : Sys :=
  let s := { s with btdevice_volume_p := place s.nv bdAddr, bound := bdAddr.filter fun a => place s.nv (some a) ≠ none }
  { s with current_btdevice_volume := s.volume }

/-- The store changes; a device that is gone is not bound any more. -/
def Sys.stored (nv : PairedBtDevInfo) (s : Sys) : Sys := { s with nv := nv, bound := s.bound.filter (· ∈ addresses nv) }

inductive Event
  | volumeup (gStreamplayer : BitVec 16)
  | volumedown (gStreamplayer : BitVec 16)
  | setVolume (gStreamplayer type : BitVec 16) (level : UInt8)
  | ptrUpdate (bdAddr : Option BdAddr)
  | ddbrecAdd (param_rec : BtifDeviceRecord)
  | ddbrecDelete (bdaddr : BdAddr)

def step (c : Config) (e : Event) (s : Sys) : Option Sys :=
  match e with
  | .volumeup g => some (appBtStreamVolumeup g s)
  | .volumedown g => some (appBtStreamVolumedown g s)
  | .setVolume g type level => some (appBtSetVolume g type level s)
  | .ptrUpdate bdAddr => some (appBtStreamVolumePtrUpdate bdAddr s)
  | .ddbrecAdd r => some (s.stored (ddbrecAdd c.volDefault r s.nv))
  | .ddbrecDelete a => some (s.stored (ddbrecDelete a s.nv).2)

/-- Volumes from `TGT_VOLUME_LEVEL_WARNINGTONE` to `TGT_VOLUME_LEVEL_15`. -/
def Levels (v : BtdeviceVolume) : Prop := ∀ t, 0 ≤ field t v ∧ field t v ≤ TGT_VOLUME_LEVEL_15

/-- After `app_bt_stream_volume_ptr_update(NULL)` of the start, with any store. -/
structure Init (c : Config) (s : Sys) : Prop where
  good : Good s.nv
  levels : ∀ i, Levels (s.nv.pairedBtDevInfo i).device_vol
  default : s.stream_volume = c.volumes
  unbound : s.btdevice_volume_p = none ∧ s.bound = none
  current : s.current_btdevice_volume = c.volumes
  applied : s.stream_local_volume = c.volDefault

/-! ## What is to be kept -/

/-- The volume applied last is the current one of its type, and the current
volumes are those in the record of the device that the pointer is bound to. -/
structure Kept (s : Sys) : Prop where
  applied : s.stream_local_volume = field s.applied s.current_btdevice_volume
  stored : ∀ a, s.bound = some a → ∃ d ∈ devices s.nv, d.addr = a ∧ d.device_vol = s.current_btdevice_volume

/-- The volumes of the other devices stay. -/
def OthersKept (s s' : Sys) : Prop :=
  ∀ d ∈ devices s.nv, ∀ d' ∈ devices s'.nv, d'.addr = d.addr → s.bound ≠ some d.addr → d'.device_vol = d.device_vol

/-- The pointer refers to the record of the device that it is bound to; bound to
none, it does not refer to a device. -/
def Bound (s : Sys) : Prop :=
  match s.bound with
  | some a => ∃ i, s.btdevice_volume_p = some i ∧ i < s.nv.pairedDevNum ∧ (s.nv.pairedBtDevInfo i).addr = a
  | none => ∀ i, s.btdevice_volume_p = some i → s.nv.pairedDevNum ≤ i

/-- The type that a step up or down is for. -/
def running (gStreamplayer : BitVec 16) : StreamType :=
  if appBtStreamIsrun gStreamplayer APP_BT_STREAM_HFP_PCM then .hfp else .a2dp

/-- A volume changes only while the pointer is bound; a step up does not end at
the top, unless the stream is there; a level that is set is the current one; and
the pointer gets bound where the volume is the one applied. -/
def Sound (e : Event) (s : Sys) : Prop :=
  match e with
  | .volumeup g => Bound s ∧
      (field (running g) s.volume + 1 < TGT_VOLUME_LEVEL_15 ∨ s.stream_local_volume = TGT_VOLUME_LEVEL_15)
  | .volumedown _ => Bound s
  | .setVolume g type level => ∀ t, sets g type t = true → 1 ≤ level.toNat → level.toNat ≤ 17 →
      Bound s ∧ (level.toNat : Int) = field t s.current_btdevice_volume
  | .ptrUpdate bdAddr => field s.applied (s.volumeAt (place s.nv bdAddr)) = s.stream_local_volume
  | .ddbrecAdd _ | .ddbrecDelete _ => True

/-! ## Writes through the pointer -/

@[simp] theorem field_setField (t : StreamType) (x : Int) (v : BtdeviceVolume) : field t (setField t x v) = x := by
  cases t <;> rfl

theorem field_setField_other {t u : StreamType} (h : u ≠ t) (x : Int) (v : BtdeviceVolume) :
    field u (setField t x v) = field u v := by
  cases t <;> cases u <;> first | rfl | exact absurd rfl h

theorem setField_self (t : StreamType) (v : BtdeviceVolume) : setField t (field t v) v = v := by
  cases t <;> rfl

theorem Levels.set {v : BtdeviceVolume} (h : Levels v) {x : Int} (h₀ : 0 ≤ x) (h₁ : x ≤ TGT_VOLUME_LEVEL_15) (t : StreamType) :
    Levels (setField t x v) := by
  intro u
  by_cases hu : u = t
  · subst hu
    rw [field_setField]
    exact ⟨h₀, h₁⟩
  · rw [field_setField_other hu]
    exact h u

variable {c : Config} {s s' : Sys} {t : StreamType} {x : Int}

theorem volume_store : field t (s.store t x).volume = x := by
  unfold Sys.store
  split <;> rename_i hp <;> simp [Sys.volume, Sys.volumeAt, hp]

/-- A device with another volume, if it is the one that is bound. -/
def rewritten (s : Sys) (t : StreamType) (x : Int) (d : NvrecBtdevicerecord) : NvrecBtdevicerecord :=
  if s.bound = some d.addr then { d with device_vol := setField t x d.device_vol } else d

theorem Bound.iff (hb : Bound s) (hg : Good s.nv) {j : Nat} (hj : j < s.nv.pairedDevNum) :
    s.bound = some (s.nv.pairedBtDevInfo j).addr ↔ s.btdevice_volume_p = some j := by
  unfold Bound at hb
  split at hb
  · rename_i a hbd
    obtain ⟨i, hp, hi, rfl⟩ := hb
    have hnd := hg.2
    rw [devices, Slots.map_view] at hnd
    rw [hbd, hp, Option.some.injEq, Option.some.injEq]
    exact ⟨fun h => Slots.view_inj hnd hi hj h, fun h => by rw [h]⟩
  · rename_i hbd
    rw [hbd]
    constructor
    · intro h
      cases h
    · intro hp
      exact absurd hj (Nat.not_lt.2 (hb j hp))

/-- Through a bound pointer the record of the bound device is written. -/
theorem devices_store (hg : Good s.nv) (hb : Bound s) : devices (s.store t x).nv = (devices s.nv).map (rewritten s t x) := by
  unfold devices
  rw [Slots.map_view]
  cases hp : s.btdevice_volume_p with
  | none =>
    simp only [Sys.store, hp]
    apply Slots.view_congr
    intro j hj
    rw [rewritten, if_neg]
    intro h
    rw [(hb.iff hg hj).1 h] at hp
    cases hp
  | some i =>
    simp only [Sys.store, hp]
    apply Slots.view_congr
    intro j hj
    have hiff := hb.iff hg hj
    rw [hp, Option.some.injEq] at hiff
    by_cases hji : j = i
    · subst hji
      rw [Function.update_self, rewritten, if_pos (hiff.2 rfl)]
    · rw [Function.update_of_ne hji, rewritten, if_neg fun h => hji (hiff.1 h).symm]

theorem rewritten_record (d : NvrecBtdevicerecord) : (rewritten s t x d).record = d.record := by
  unfold rewritten
  split <;> rfl

/-! ## Volume operations -/

/-- A volume is written to the record, made the current one and applied. -/
def Sys.written (t : StreamType) (x : Int) (s : Sys) : Sys :=
  let s := s.store t x
  { s with
    current_btdevice_volume := setField t x s.current_btdevice_volume
    stream_local_volume := x
    applied := t }

theorem store_rest : (s.store t x).current_btdevice_volume = s.current_btdevice_volume ∧
    (s.store t x).stream_local_volume = s.stream_local_volume ∧ (s.store t x).bound = s.bound := by
  unfold Sys.store
  split <;> exact ⟨rfl, rfl, rfl⟩

theorem int8_eq (h₀ : -1 ≤ x) (h₁ : x ≤ 18) : int8 x = x := by
  unfold int8
  rw [Int.bmod_def]
  omega

theorem appBtStreamVolumeset_eq (h₀ : 1 ≤ x) (h₁ : x ≤ 17) : appBtStreamVolumeset x s = { s with stream_local_volume := x } := by
  unfold appBtStreamVolumeset
  dsimp only
  rw [if_neg (Int.not_lt.2 h₁), if_neg (Int.not_lt.2 h₀)]

/-- A step up that does not end at the top, or at the top where the stream is. -/
theorem volumeup_eq (hv : Levels s.volume) (hc : field t s.volume + 1 < 17 ∨ s.stream_local_volume = 17) :
    ∃ x, 1 ≤ x ∧ x ≤ 17 ∧ volumeup t s = s.written t x := by
  obtain ⟨h₀, h₁⟩ : 0 ≤ field t s.volume ∧ field t s.volume ≤ 17 := hv t
  unfold volumeup
  dsimp only
  rw [int8_eq (by omega) (by omega)]
  by_cases hlt : field t s.volume + 1 < 17
  · refine ⟨field t s.volume + 1, by omega, by omega, ?_⟩
    rw [if_neg (show ¬ field t s.volume + 1 > 17 by omega), if_pos hlt, appBtStreamVolumeset_eq (by omega) (by omega)]
    rfl
  · refine ⟨17, by omega, by omega, ?_⟩
    have htop : (if field t s.volume + 1 > 17 then 17 else field t s.volume + 1) = 17 := by
      split_ifs <;> omega
    rw [htop, if_neg (Int.lt_irrefl _), Sys.written]
    congr 1
    exact store_rest.2.1.trans (hc.resolve_left hlt)

theorem volumedown_eq (hv : Levels s.volume) {least : Int} (hl₀ : 1 ≤ least) (hl₁ : least ≤ 17) :
    ∃ x, 1 ≤ x ∧ x ≤ 17 ∧ volumedown t least s = s.written t x := by
  obtain ⟨h₀, h₁⟩ : 0 ≤ field t s.volume ∧ field t s.volume ≤ 17 := hv t
  unfold volumedown
  dsimp only
  rw [int8_eq (by omega) (by omega)]
  refine ⟨if field t s.volume - 1 < least then least else field t s.volume - 1, ?_, ?_, ?_⟩
  · split_ifs <;> omega
  · split_ifs <;> omega
  · rw [appBtStreamVolumeset_eq]
    · rfl
    · split_ifs <;> omega
    · split_ifs <;> omega

/-- The current level is set once more. -/
theorem setVolume_eq (h₀ : 1 ≤ x) (h₁ : x ≤ 17) (hc : x = field t s.current_btdevice_volume) :
    setVolume t x s = s.written t x := by
  unfold setVolume
  rw [if_pos ⟨h₀, h₁⟩]
  dsimp only
  rw [volume_store, appBtStreamVolumeset_eq h₀ h₁, Sys.written]
  congr 1
  rw [store_rest.1, hc, setField_self]

/-- The invariant: what is kept, and volumes that the operations may step up and
down. -/
structure Inv (s : Sys) : Prop where
  good : Good s.nv
  levels : ∀ i, Levels (s.nv.pairedBtDevInfo i).device_vol
  default : Levels s.stream_volume
  kept : Kept s

theorem Inv.volume (hi : Inv s) : Levels s.volume := by
  unfold Sys.volume Sys.volumeAt
  split
  · exact hi.default
  · exact hi.levels _

theorem levels_store (hi : Inv s) (h₀ : 1 ≤ x) (h₁ : x ≤ 17) :
    (∀ i, Levels ((s.store t x).nv.pairedBtDevInfo i).device_vol) ∧ Levels (s.store t x).stream_volume := by
  have h₀ : 0 ≤ x := by omega
  unfold Sys.store
  split
  · exact ⟨hi.levels, hi.default.set h₀ h₁ t⟩
  · rename_i i _
    refine ⟨fun j => ?_, hi.default⟩
    dsimp only
    rw [Function.update_apply]
    split
    · exact (hi.levels i).set h₀ h₁ t
    · exact hi.levels j

theorem devices_written (hi : Inv s) (hb : Bound s) :
    devices (s.written t x).nv = (devices s.nv).map (rewritten s t x) := devices_store hi.good hb

/-- A write keeps the records in place. -/
theorem records_written (hi : Inv s) (hb : Bound s) :
    (devices (s.written t x).nv).map (·.record) = (devices s.nv).map (·.record) := by
  rw [devices_written hi hb, List.map_map]
  apply List.map_congr_left
  intro d _
  exact rewritten_record d

theorem Inv.written (hi : Inv s) (hb : Bound s) (h₀ : 1 ≤ x) (h₁ : x ≤ 17) : Inv (s.written t x) := by
  obtain ⟨hlevels, hdefault⟩ := levels_store (t := t) hi h₀ h₁
  refine ⟨hi.good.of_records (records_written hi hb), hlevels, hdefault, ⟨(field_setField t x _).symm, ?_⟩⟩
  intro a ha
  replace ha : s.bound = some a := store_rest.2.2.symm.trans ha
  obtain ⟨d, hd, rfl, hvol⟩ := hi.kept.stored a ha
  refine ⟨rewritten s t x d, ?_, congrArg (·.bdAddr) (rewritten_record d), ?_⟩
  · rw [devices_written hi hb]
    exact List.mem_map_of_mem hd
  · rw [rewritten, if_pos ha, hvol]
    exact congrArg (setField t x) store_rest.1.symm

theorem device_unique {nv : PairedBtDevInfo} (hg : Good nv) {d e : NvrecBtdevicerecord} (hd : d ∈ devices nv)
    (he : e ∈ devices nv) (h : d.addr = e.addr) : d = e := List.inj_on_of_nodup_map hg.2 hd he h

theorem others_written (hi : Inv s) (hb : Bound s) : OthersKept s (s.written t x) := by
  intro d hd d' hd' ha hbound
  rw [devices_written hi hb] at hd'
  obtain ⟨e, he, rfl⟩ := List.mem_map.1 hd'
  have hae : (rewritten s t x e).addr = e.addr := congrArg (·.bdAddr) (rewritten_record e)
  obtain rfl := device_unique hi.good he hd (hae.symm.trans ha)
  rw [rewritten, if_neg hbound]

theorem Bound.written (hb : Bound s) : Bound (s.written t x) := by
  have hplace : (s.store t x).btdevice_volume_p = s.btdevice_volume_p ∧ (s.store t x).nv.pairedDevNum = s.nv.pairedDevNum ∧
      ∀ i, ((s.store t x).nv.pairedBtDevInfo i).record = (s.nv.pairedBtDevInfo i).record := by
    unfold Sys.store
    split
    · exact ⟨rfl, rfl, fun _ => rfl⟩
    · rename_i i _
      refine ⟨rfl, rfl, fun j => ?_⟩
      by_cases hj : j = i
      · subst hj
        simp
      · simp [Function.update_of_ne hj]
  obtain ⟨hp, hnum, hrec⟩ := hplace
  unfold Bound at hb ⊢
  simp only [Sys.written, store_rest.2.2, hp, hnum, NvrecBtdevicerecord.addr, hrec]
  exact hb

/-! ## Steps -/

/-- What a volume operation leaves for the next one. -/
structure Steady (s s' : Sys) : Prop where
  inv : Inv s'
  others : OthersKept s s'
  addresses : addresses s'.nv = addresses s.nv
  bound : s'.bound = s.bound

theorem Steady.refl (hi : Inv s) : Steady s s := by
  refine ⟨hi, fun d hd d' hd' ha _ => ?_, rfl, rfl⟩
  rw [device_unique hi.good hd' hd ha]

theorem Steady.written (hi : Inv s) (hb : Bound s) (h₀ : 1 ≤ x) (h₁ : x ≤ 17) : Steady s (s.written t x) := by
  refine ⟨hi.written hb h₀ h₁, others_written hi hb, ?_, store_rest.2.2⟩
  simpa [Function.comp_def] using congrArg (List.map BtifDeviceRecord.bdAddr) (records_written (t := t) (x := x) hi hb)

theorem Steady.trans {s₁ s₂ : Sys} (h₁ : Steady s s₁) (h₂ : Steady s₁ s₂) : Steady s s₂ := by
  refine ⟨h₂.inv, fun d hd d'' hd'' ha hbound => ?_, h₂.addresses.trans h₁.addresses, h₂.bound.trans h₁.bound⟩
  have hmem : d.addr ∈ NvRecord.Bt.addresses s₁.nv := h₁.addresses ▸ List.mem_map_of_mem hd
  obtain ⟨d', hd', ha'⟩ := List.mem_map.1 hmem
  have hbound' : s₁.bound ≠ some d'.addr := by rwa [h₁.bound, ha']
  rw [h₂.others d' hd' d'' hd'' (ha.trans ha'.symm) hbound', h₁.others d hd d' hd' ha' hbound]

theorem Steady.touch (h : Steady s s') : Steady s (nvRecordTouchCauseFlush s') :=
  ⟨⟨h.inv.good, h.inv.levels, h.inv.default, ⟨h.inv.kept.applied, h.inv.kept.stored⟩⟩, h.others, h.addresses, h.bound⟩

theorem isrun_invalid (g : BitVec 16) : appBtStreamIsrun g APP_BT_STREAM_INVALID = true := by
  simp [appBtStreamIsrun]

theorem appBtStreamVolumeup_steady {g : BitVec 16} (hi : Inv s) (hc : Sound (.volumeup g) s) :
    Steady s (appBtStreamVolumeup g s) := by
  have heq : appBtStreamVolumeup g s = nvRecordTouchCauseFlush (volumeup (running g) s) := by
    simp only [appBtStreamVolumeup, running, isrun_invalid, or_true, if_true]
    split <;> rfl
  obtain ⟨x, h₀, h₁, hx⟩ := volumeup_eq hi.volume hc.2
  rw [heq, hx]
  exact (Steady.written hi hc.1 h₀ h₁).touch

theorem volumedown_steady {least : Int} (hi : Inv s) (hb : Bound s) (hl₀ : 1 ≤ least) (hl₁ : least ≤ 17) :
    Steady s (volumedown t least s) := by
  obtain ⟨x, h₀, h₁, hx⟩ := volumedown_eq (t := t) hi.volume hl₀ hl₁
  rw [hx]
  exact Steady.written hi hb h₀ h₁

theorem appBtStreamVolumedown_steady {g : BitVec 16} (hi : Inv s) (hb : Bound s) : Steady s (appBtStreamVolumedown g s) := by
  apply Steady.touch
  simp only [isrun_invalid, true_or, if_true]
  split
  · exact volumedown_steady hi hb (by decide) (by decide)
  · exact volumedown_steady hi hb (by decide) (by decide)

/-- A level that is set leaves the current volumes and the pointer. -/
theorem setVolume_steady (hi : Inv s) (hc : 1 ≤ x → x ≤ 17 → Bound s ∧ x = field t s.current_btdevice_volume) :
    Steady s (setVolume t x s) ∧ (setVolume t x s).current_btdevice_volume = s.current_btdevice_volume ∧
      (Bound s → Bound (setVolume t x s)) := by
  by_cases hx : 1 ≤ x ∧ x ≤ 17
  · obtain ⟨hb, heq⟩ := hc hx.1 hx.2
    rw [setVolume_eq hx.1 hx.2 heq]
    refine ⟨Steady.written hi hb hx.1 hx.2, ?_, fun hb => hb.written⟩
    rw [Sys.written]
    dsimp only
    rw [store_rest.1, heq, setField_self]
  · rw [setVolume, if_neg hx]
    exact ⟨Steady.refl hi, rfl, id⟩

theorem appBtSetVolume_steady {g type : BitVec 16} {level : UInt8} (hi : Inv s) (hc : Sound (.setVolume g type level) s) :
    Steady s (appBtSetVolume g type level s) := by
  have hlevel (t : StreamType) (ht : sets g type t = true) (h₀ : 1 ≤ (level.toNat : Int)) (h₁ : (level.toNat : Int) ≤ 17) :
      Bound s ∧ (level.toNat : Int) = field t s.current_btdevice_volume := hc t ht (by omega) (by omega)
  unfold appBtSetVolume
  apply Steady.touch
  have hfp : ∃ s₁, s₁ = (if sets g type .hfp then setVolume .hfp level.toNat s else s) ∧ Steady s s₁ ∧
      s₁.current_btdevice_volume = s.current_btdevice_volume ∧ (Bound s → Bound s₁) := by
    refine ⟨_, rfl, ?_⟩
    split
    · rename_i ht
      exact setVolume_steady hi (hlevel .hfp ht)
    · exact ⟨Steady.refl hi, rfl, id⟩
  obtain ⟨s₁, heq, hs₁, hcur, hbound⟩ := hfp
  rw [← heq]
  split
  · rename_i ht
    refine hs₁.trans (setVolume_steady hs₁.inv fun h₀ h₁ => ?_).1
    obtain ⟨hb, hl⟩ := hlevel .a2dp ht h₀ h₁
    exact ⟨hbound hb, hcur ▸ hl⟩
  · exact hs₁

theorem ptrUpdate_inv {bdAddr : Option BdAddr} (hi : Inv s) (hc : Sound (.ptrUpdate bdAddr) s) :
    Inv (appBtStreamVolumePtrUpdate bdAddr s) := by
  refine ⟨hi.good, hi.levels, hi.default, ⟨hc.symm, ?_⟩⟩
  intro a ha
  obtain ⟨rfl, hplace⟩ := Option.filter_eq_some_iff.1 ha
  obtain ⟨i, hi⟩ := Option.ne_none_iff_exists'.1 (of_decide_eq_true hplace)
  obtain ⟨hlt, haddr⟩ := index_some hi
  refine ⟨_, mem_devices hlt, haddr, ?_⟩
  simp only [appBtStreamVolumePtrUpdate, Sys.volume, hi, Sys.volumeAt]

/-! ## Where the condition fails -/

/-- A step up that ends at the top is not applied. -/
theorem volumeup_not_kept (hv : Levels s.volume) (htop : 17 ≤ field t s.volume + 1) (hlocal : s.stream_local_volume ≠ 17) :
    ¬ Kept (volumeup t s) := by
  obtain ⟨h₀, h₁⟩ : 0 ≤ field t s.volume ∧ field t s.volume ≤ 17 := hv t
  have hx : (if field t s.volume + 1 > 17 then 17 else field t s.volume + 1) = 17 := by
    split_ifs <;> omega
  intro hk
  have happlied := hk.applied
  unfold volumeup at happlied
  dsimp only at happlied
  rw [int8_eq (by omega) (by omega), hx, if_neg (Int.lt_irrefl _), field_setField] at happlied
  exact hlocal (store_rest.2.1.symm.trans happlied)

/-- A level that is set does not become the current one. -/
theorem setVolume_not_kept (h₀ : 1 ≤ x) (h₁ : x ≤ 17) (hne : x ≠ field t s.current_btdevice_volume) :
    ¬ Kept (setVolume t x s) := by
  intro hk
  have happlied := hk.applied
  rw [setVolume, if_pos ⟨h₀, h₁⟩] at happlied
  dsimp only at happlied
  rw [volume_store, appBtStreamVolumeset_eq h₀ h₁] at happlied
  exact hne (happlied.trans (congrArg (field t) store_rest.1))

/-! ## The store -/

/-- The store keeps the volumes of the devices that stay. -/
def VolumesStay (nv nv' : PairedBtDevInfo) : Prop :=
  ∀ d ∈ devices nv, ∀ d' ∈ devices nv', d'.addr = d.addr → d'.device_vol = d.device_vol

theorem ddbrecAdd_stay {nv : PairedBtDevInfo} (hg : Good nv) (r : BtifDeviceRecord) :
    VolumesStay nv (ddbrecAdd c.volDefault r nv) := by
  intro d hd d' hd' ha
  rw [devices_ddbrecAdd c.volDefault hg] at hd'
  rcases List.mem_cons.1 (List.mem_of_mem_take hd') with rfl | hd'
  · have hr : (addedDevice c.volDefault r nv).addr = r.bdAddr := congrArg (·.bdAddr) (addedDevice_record ..)
    rw [addedDevice_of_mem c.volDefault hg hd (ha.symm.trans hr)]
  · rw [device_unique hg (Mru.mem_drop.1 hd').1 hd ha]

theorem ddbrecDelete_stay {nv : PairedBtDevInfo} (hg : Good nv) (a : BdAddr) : VolumesStay nv (ddbrecDelete a nv).2 := by
  intro d hd d' hd' ha
  rw [devices_ddbrecDelete hg] at hd'
  rw [device_unique hg (Mru.mem_drop.1 hd').1 hd ha]

theorem Config.levels (c : Config) : Levels c.volumes := by
  have := c.inRange
  intro t
  cases t <;> exact ⟨by simp only [field, Config.volumes]; omega, this.2⟩

theorem levels_zero : Levels zeroDevice.device_vol := by
  intro t
  cases t <;> decide

theorem levels_update {info : Nat → NvrecBtdevicerecord} (hv : ∀ i, Levels (info i).device_vol) (j : Nat)
    {d : NvrecBtdevicerecord} (hd : Levels d.device_vol) (i : Nat) : Levels (Function.update info j d i).device_vol := by
  rw [Function.update_apply]
  split
  · exact hd
  · exact hv i

theorem ddbrecAdd_levels {nv : PairedBtDevInfo} (hv : ∀ i, Levels (nv.pairedBtDevInfo i).device_vol) (r : BtifDeviceRecord) :
    ∀ i, Levels ((ddbrecAdd c.volDefault r nv).pairedBtDevInfo i).device_vol := by
  have hshift (k i : Nat) : Levels (Slots.shiftUp nv.pairedBtDevInfo k k i).device_vol := by
    obtain ⟨j, hj⟩ := Slots.exists_shiftUp (Nat.le_refl k) i
    rw [hj]
    exact hv j
  unfold ddbrecAdd
  split
  · by_cases hfull : maxBtPairedDeviceCount = nv.pairedDevNum
    · rw [if_pos hfull]
      exact levels_update (hshift _) 0 c.levels
    · rw [if_neg hfull]
      exact levels_update (hshift _) 0 c.levels
  · rename_i j _
    split
    · have hfront := levels_update (hshift j) 0 (hv j)
      exact levels_update hfront 0 (hfront 0)
    · split
      · exact levels_update hv 0 (hv 0)
      · exact hv

theorem ddbrecDelete_levels {nv : PairedBtDevInfo} (hv : ∀ i, Levels (nv.pairedBtDevInfo i).device_vol) (a : BdAddr) :
    ∀ i, Levels ((ddbrecDelete a nv).2.pairedBtDevInfo i).device_vol := by
  unfold ddbrecDelete
  split
  · exact hv
  · refine levels_update (fun i => ?_) _ ?_
    · obtain ⟨j, hj⟩ := Slots.exists_shiftDown i
      rw [hj]
      exact hv j
    · exact levels_zero

theorem stored_inv {nv : PairedBtDevInfo} (hi : Inv s) (hg : Good nv) (hv : ∀ i, Levels (nv.pairedBtDevInfo i).device_vol)
    (hstay : VolumesStay s.nv nv) : Inv (s.stored nv) := by
  refine ⟨hg, hv, hi.default, ⟨hi.kept.applied, ?_⟩⟩
  intro a ha
  obtain ⟨hbound, hmem⟩ := Option.filter_eq_some_iff.1 ha
  obtain ⟨d, hd, rfl, hvol⟩ := hi.kept.stored a hbound
  obtain ⟨d', hd', ha'⟩ := List.mem_map.1 (of_decide_eq_true hmem)
  exact ⟨d', hd', ha', (hstay d hd d' hd' ha').trans hvol⟩

/-! ## Runs -/

theorem Inv.init (h : Init c s) : Inv s := by
  refine ⟨h.good, h.levels, h.default ▸ c.levels, ⟨?_, ?_⟩⟩
  · rw [h.applied, h.current]
    cases s.applied <;> rfl
  · intro a ha
    rw [h.unbound.2] at ha
    cases ha

theorem step_inv {e : Event} (hi : Inv s) (hc : Sound e s) (hs : step c e s = some s') : Inv s' ∧ OthersKept s s' := by
  cases e with
  | volumeup g =>
    cases hs
    have h := appBtStreamVolumeup_steady hi hc
    exact ⟨h.inv, h.others⟩
  | volumedown g =>
    cases hs
    have h := appBtStreamVolumedown_steady hi hc (g := g)
    exact ⟨h.inv, h.others⟩
  | setVolume g type level =>
    cases hs
    have h := appBtSetVolume_steady hi hc
    exact ⟨h.inv, h.others⟩
  | ptrUpdate bdAddr =>
    cases hs
    exact ⟨ptrUpdate_inv hi hc, (Steady.refl hi).others⟩
  | ddbrecAdd r =>
    cases hs
    have hstay := ddbrecAdd_stay (c := c) hi.good r
    refine ⟨stored_inv hi (hi.good.apply c.volDefault (.add r)) (ddbrecAdd_levels hi.levels r) hstay, ?_⟩
    exact fun d hd d' hd' ha _ => hstay d hd d' hd' ha
  | ddbrecDelete a =>
    cases hs
    have hstay := ddbrecDelete_stay hi.good a
    refine ⟨stored_inv hi (hi.good.apply c.volDefault (.delete a)) (ddbrecDelete_levels hi.levels a) hstay, ?_⟩
    exact fun d hd d' hd' ha _ => hstay d hd d' hd' ha

/-- In every run of sound operations the volumes agree, and no operation changes
those of another device. -/
theorem volumes_kept {evs : List Event} (hrun : Run (step c) Sound (Init c) s evs) :
    Kept s ∧ ∀ e s', Sound e s → step c e s = some s' → OthersKept s s' := by
  have hi : Inv s := hrun.inv Inv (fun _ => Inv.init) fun _ _ _ hi hc hs => (step_inv hi hc hs).1
  exact ⟨hi.kept, fun e s' hc hs => (step_inv hi hc hs).2⟩

instance (s : Sys) : Decidable (Bound s) := by
  unfold Bound
  split
  · rename_i a _
    exact decidable_of_iff (∃ i ∈ s.btdevice_volume_p, i < s.nv.pairedDevNum ∧ (s.nv.pairedBtDevInfo i).addr = a) Iff.rfl
  · exact decidable_of_iff (∀ i ∈ s.btdevice_volume_p, s.nv.pairedDevNum ≤ i) Iff.rfl

instance (p : StreamType → Prop) [DecidablePred p] : Decidable (∀ t, p t) :=
  decidable_of_iff (p .a2dp ∧ p .hfp) ⟨fun h t => by cases t <;> simp only [h], fun h => ⟨h _, h _⟩⟩

instance (e : Event) (s : Sys) : Decidable (Sound e s) := by
  cases e <;> unfold Sound <;> infer_instance

def loud : Config := { volDefault := 12, inRange := by decide }

def powerOn : Sys :=
  { nv := rebuildPairedBtDevInfo, stream_volume := loud.volumes, btdevice_volume_p := none
    current_btdevice_volume := loud.volumes, stream_local_volume := 12, bound := none, applied := .a2dp }

theorem init_powerOn : Init loud powerOn := by
  exact ⟨⟨Nat.zero_le _, List.nodup_nil⟩, fun _ => levels_zero, rfl, ⟨rfl, rfl⟩, rfl, rfl⟩

def phone (n : UInt8) : BtifDeviceRecord := { zeroDevice.record with bdAddr := .replicate 6 n }

/-- A phone is paired and bound, and its music made louder. -/
theorem volumes_kept_louder : ∃ s evs, Run (step loud) Sound (Init loud) s evs ∧ s.stream_local_volume = 13 ∧ Kept s := by
  obtain ⟨s, hrun, hgood⟩ := exists_run_of_check (step loud) Sound (Init loud) (some powerOn)
    [.ddbrecAdd (phone 1), .ptrUpdate (some (phone 1).bdAddr), .volumeup APP_BT_STREAM_A2DP_SBC]
    (fun s => decide (s.stream_local_volume = 13))
    (by rintro _ ⟨⟩; exact init_powerOn) (by decide +kernel)
  exact ⟨s, _, hrun, of_decide_eq_true hgood, (volumes_kept hrun).1⟩

/-- Another phone is paired behind the pointer: the next step up makes this one
louder, and the volume of the phone that is bound is not the current one. -/
theorem volume_of_another : ∃ s evs, Run (step loud) (fun _ _ => True) (Init loud) s evs ∧
    s.bound = some (phone 1).bdAddr ∧ ¬ Kept s := by
  obtain ⟨s, hrun, hgood⟩ := exists_run_of_check (step loud) (fun _ _ => True) (Init loud) (some powerOn)
    [.ddbrecAdd (phone 1), .ptrUpdate (some (phone 1).bdAddr), .ddbrecAdd (phone 2), .volumeup APP_BT_STREAM_A2DP_SBC]
    (fun s => decide (s.bound = some (phone 1).bdAddr ∧
      ∀ d ∈ devices s.nv, d.addr = (phone 1).bdAddr → d.device_vol ≠ s.current_btdevice_volume))
    (by rintro _ ⟨⟩; exact init_powerOn) (by decide +kernel)
  obtain ⟨hbound, hall⟩ := of_decide_eq_true hgood
  refine ⟨s, _, hrun, hbound, fun h => ?_⟩
  obtain ⟨d, hd, ha, hvol⟩ := h.stored _ hbound
  exact hall d hd ha hvol

end BtApp.Volume
