import Mathlib.Data.List.Basic
import Mathlib.Tactic.Common
/-!
# The advertising data

`ble_adv_config_param` of `services/ble_app/app_main/app_ble_mode_switch.c`
collects what the registered users advertise, and puts the name of the device
behind it as far as there is space.
-/

namespace BleApp.AdvConfig

/-- `BLE_DATA_LEN`. -/
abbrev bleDataLen : Nat := 31

/-- `BLE_ADV_DATA_WITH_FLAG_LEN` or `BLE_ADV_DATA_WITHOUT_FLAG_LEN`. -/
def advDataLimit (withFlag : Bool) : Nat := if withFlag then bleDataLen - 3 else bleDataLen

/-- `APP_DEVICE_NAME_MAX_LEN`. -/
abbrev appDeviceNameMaxLen : Nat := 24

/-- `GAPM_ADV_UNDIRECT` and `GAPM_ADV_NON_CONN`. -/
abbrev gapmAdvUndirect : UInt8 := 13

abbrev gapmAdvNonConn : UInt8 := 12

/-- `BLE_ADV_PARAM_T`, with the two arrays at their full length. -/
structure AdvParam where
  withFlag : Bool
  advType : UInt8
  advInterval : UInt16
  advDataLen : UInt8
  advData : List UInt8
  advData_length : advData.length = bleDataLen
  scanRspDataLen : UInt8
  scanRspData : List UInt8
  scanRspData_length : scanRspData.length = bleDataLen

/-- The bytes that are advertised. -/
def AdvParam.payload (p : AdvParam) : List UInt8 := p.advData.take p.advDataLen.toNat

/-- The parameter in front of the users. -/
def AdvParam.initial (advType : UInt8) (advInterval : UInt16) (arriveAtMax : Bool) : AdvParam where
  withFlag := true
  advType := if arriveAtMax ∧ gapmAdvUndirect = advType then gapmAdvNonConn else advType
  advInterval := advInterval
  advDataLen := 0
  advData := List.replicate bleDataLen 0
  advData_length := List.length_replicate
  scanRspDataLen := 0
  scanRspData := List.replicate bleDataLen 0
  scanRspData_length := List.length_replicate

/-- What the assertions behind each user check. -/
def AdvParam.Legal (p : AdvParam) : Prop :=
  p.advDataLen.toNat ≤ advDataLimit p.withFlag ∧ p.scanRspDataLen.toNat ≤ bleDataLen

instance (p : AdvParam) : Decidable p.Legal := inferInstanceAs (Decidable (_ ∧ _))

/-- The loop over the users: `bleDataFillFunc`, where one is registered, and the assertions. -/
def fillUsers : List (Option (AdvParam → AdvParam)) → AdvParam → Option AdvParam
  | [], p => some p
  | none :: users, p => fillUsers users p
  | some fill :: users, p => if (fill p).Legal then fillUsers users (fill p) else none

/-- Bytes are written from `advDataLen` on, which goes behind them. Out of the array there is no result. -/
def AdvParam.put (p : AdvParam) (bytes : List UInt8) : Option AdvParam :=
  if h : p.advDataLen.toNat + bytes.length ≤ bleDataLen then
    some { p with
      advDataLen := p.advDataLen + UInt8.ofNat bytes.length
      advData := p.advData.take p.advDataLen.toNat ++ bytes ++ p.advData.drop (p.advDataLen.toNat + bytes.length)
      advData_length := by
        simp only [List.length_append, List.length_take, List.length_drop, p.advData_length]
        omega }
  else none

/-- `avail_space`. -/
def availSpace (p : AdvParam) : UInt8 := UInt8.ofNat (advDataLimit p.withFlag) - p.advDataLen - 2

/-- The name is put behind the data of the users. -/
def appendName (dev_name : List UInt8) (p : AdvParam) : Option AdvParam :=
  if 2 < availSpace p then
    let avail_space := UInt8.ofNat (min (availSpace p).toNat dev_name.length)
    (p.put [avail_space + 1]).bind fun p =>
      (p.put [if avail_space.toNat = dev_name.length then 0x08 else 0x09]).bind fun p =>
        p.put (dev_name.take avail_space.toNat)
  else some p

/-- `ble_adv_config_param`: no result where an assertion fails, and none in the other way where it goes out of the
array. -/
def bleAdvConfigParam (bleDataFillFunc : List (Option (AdvParam → AdvParam))) (dev_name : List UInt8) (advType : UInt8)
    (advInterval : UInt16) (arriveAtMax : Bool) : Option (Option AdvParam) :=
  (fillUsers bleDataFillFunc (.initial advType advInterval arriveAtMax)).map (appendName dev_name)

/-! ## What is advertised -/

/-- `GAP_AD_TYPE_SHORTENED_NAME` and `GAP_AD_TYPE_COMPLETE_NAME`. -/
inductive NameType where
  | shortened
  | complete
  deriving DecidableEq

def NameType.value : NameType → UInt8
  | shortened => 0x08
  | complete => 0x09

/-- A structure of the advertising data with a name: its length byte counts the bytes behind it. -/
def nameStructure (type : NameType) (shown : List UInt8) : List UInt8 :=
  UInt8.ofNat (shown.length + 1) :: type.value :: shown

/-- The data of the users, and behind it nothing or the name, which is complete if its type says so. -/
structure Composed (users : AdvParam) (dev_name : List UInt8) (p : AdvParam) : Prop where
  limit : p.advDataLen.toNat ≤ advDataLimit p.withFlag
  payload : p.payload = users.payload ∨
    ∃ type shown, p.payload = users.payload ++ nameStructure type shown ∧ shown <+: dev_name ∧
      (type = .complete ↔ shown = dev_name)

/-- The users have left the space of a header, and of two more bytes at most. -/
def LeavesNoName (users : AdvParam) : Prop :=
  users.advDataLen.toNat + 2 ≤ advDataLimit users.withFlag ∧ advDataLimit users.withFlag ≤ users.advDataLen.toNat + 4

section Names

variable {p p' users : AdvParam} {bytes dev_name : List UInt8}

theorem fillUsers_legal {fills : List (Option (AdvParam → AdvParam))} (h : fillUsers fills p = some users) (hp : p.Legal) :
    users.Legal := by
  induction fills generalizing p with
  | nil =>
    obtain rfl := Option.some_inj.mp h
    exact hp
  | cons fill fills ih =>
    cases fill with
    | none => exact ih h hp
    | some fill =>
      rw [fillUsers] at h
      split at h
      · exact ih h ‹_›
      · cases h

theorem advDataLimit_le (withFlag : Bool) : advDataLimit withFlag ≤ 31 := by
  cases withFlag <;> decide

theorem put_spec (h : p.put bytes = some p') :
    p'.advDataLen.toNat = p.advDataLen.toNat + bytes.length ∧ p'.payload = p.payload ++ bytes ∧ p'.withFlag = p.withFlag := by
  rw [AdvParam.put] at h
  split at h
  · rename_i hfits
    have hfits : p.advDataLen.toNat + bytes.length ≤ 31 := hfits
    obtain rfl := Option.some_inj.mp h
    have hlen : (p.advDataLen + UInt8.ofNat bytes.length).toNat = p.advDataLen.toNat + bytes.length := by
      rw [UInt8.toNat_add, UInt8.toNat_ofNat']
      omega
    refine ⟨hlen, ?_, rfl⟩
    have htake : (p.advData.take p.advDataLen.toNat ++ bytes).length = p.advDataLen.toNat + bytes.length := by
      rw [List.length_append, List.length_take, p.advData_length]
      omega
    simp only [AdvParam.payload]
    rw [hlen, List.take_append_of_le_length (Nat.le_of_eq htake.symm), List.take_of_length_le (Nat.le_of_eq htake)]
  · cases h

/-- The space that is left for the name. -/
theorem availSpace_toNat (h : p.advDataLen.toNat ≤ advDataLimit p.withFlag) :
    (availSpace p).toNat = (advDataLimit p.withFlag + 254 - p.advDataLen.toNat) % 256 := by
  have hlimit := advDataLimit_le p.withFlag
  rw [availSpace, UInt8.toNat_sub, UInt8.toNat_sub, UInt8.toNat_ofNat']
  have : (2 : UInt8).toNat = 2 := rfl
  omega

/-- A name is put there with the type of the other case. -/
theorem appendName_spec (hspace : 2 < availSpace p) (hname : dev_name.length ≤ appDeviceNameMaxLen)
    (h : appendName dev_name p = some p') :
    ∃ n, n = min (availSpace p).toNat dev_name.length ∧ p'.advDataLen.toNat = p.advDataLen.toNat + (2 + n) ∧
      p'.withFlag = p.withFlag ∧
      p'.payload = p.payload ++ (UInt8.ofNat (n + 1) :: (if n = dev_name.length then 0x08 else 0x09) :: dev_name.take n) := by
  rw [appendName, if_pos hspace] at h
  obtain ⟨p₁, hlength, h⟩ := Option.bind_eq_some_iff.mp h
  obtain ⟨p₂, htype, h⟩ := Option.bind_eq_some_iff.mp h
  obtain ⟨hlen₁, hpayload₁, hflag₁⟩ := put_spec hlength
  obtain ⟨hlen₂, hpayload₂, hflag₂⟩ := put_spec htype
  obtain ⟨hlen₃, hpayload₃, hflag₃⟩ := put_spec h
  obtain ⟨n, hn⟩ : ∃ n, n = min (availSpace p).toNat dev_name.length := ⟨_, rfl⟩
  have hname : dev_name.length ≤ 24 := hname
  have hsmall : (UInt8.ofNat n).toNat = n := by
    rw [UInt8.toNat_ofNat', hn]
    exact Nat.mod_eq_of_lt (by omega)
  rw [← hn, hsmall] at hlen₃ hpayload₃
  rw [← hn] at hpayload₁
  rw [← hn, hsmall] at hpayload₂
  rw [List.length_take] at hlen₃
  rw [List.length_singleton] at hlen₁ hlen₂
  refine ⟨n, hn, by omega, hflag₃.trans (hflag₂.trans hflag₁), ?_⟩
  rw [hpayload₃, hpayload₂, hpayload₁, UInt8.ofNat_add, List.append_assoc, List.append_assoc]
  rfl

/-- What is there with a name is not composed as it should be. -/
theorem not_composed (hspace : 2 < availSpace users)
    (hname : dev_name.length ≤ appDeviceNameMaxLen) (h : appendName dev_name users = some p) : ¬Composed users dev_name p := by
  obtain ⟨n, hn, hlen, hflag, hpayload⟩ := appendName_spec hspace hname h
  intro hcomposed
  rcases hcomposed.payload with hnone | ⟨type, shown, hshown, hfront, htype⟩
  · have hlength := congrArg List.length (hnone.symm.trans hpayload)
    rw [List.length_append] at hlength
    simp only [List.length_cons] at hlength
    omega
  · -- the bytes behind the type tell how much of the name is there
    have heq := List.append_cancel_left (hshown.symm.trans hpayload)
    obtain ⟨_, hrest⟩ := List.cons.inj heq
    obtain ⟨hvalue, rfl⟩ := List.cons.inj hrest
    have hwhole : dev_name.take n = dev_name ↔ n = dev_name.length := by
      constructor
      · intro htake
        have := congrArg List.length htake
        rw [List.length_take] at this
        omega
      · rintro rfl
        exact List.take_length
    rw [hwhole] at htype
    split at hvalue
    · rw [htype.mpr ‹_›] at hvalue
      exact absurd hvalue (by decide)
    · cases type with
      | shortened => exact absurd hvalue (by decide)
      | complete => exact ‹¬_› (htype.mp rfl)

/-- The data is composed as it should be where no name is put in, for which the users must have left the space
of a header, and of two more bytes at most. -/
theorem composed_iff (bleDataFillFunc : List (Option (AdvParam → AdvParam))) (dev_name : List UInt8) (advType : UInt8)
    (advInterval : UInt16) (arriveAtMax : Bool) (users : AdvParam) (hname : dev_name.length ≤ appDeviceNameMaxLen)
    (husers : fillUsers bleDataFillFunc (.initial advType advInterval arriveAtMax) = some users) :
    (∃ p, bleAdvConfigParam bleDataFillFunc dev_name advType advInterval arriveAtMax = some (some p) ∧
      Composed users dev_name p) ↔ LeavesNoName users := by
  have hinitial : (AdvParam.initial advType advInterval arriveAtMax).Legal := ⟨Nat.zero_le _, Nat.zero_le _⟩
  obtain ⟨hlegal, _⟩ := fillUsers_legal husers hinitial
  have hlimit := advDataLimit_le users.withFlag
  have hspace := availSpace_toNat hlegal
  rw [bleAdvConfigParam, husers, Option.map_some]
  by_cases hname' : 2 < availSpace users
  · have hmore : 2 < (availSpace users).toNat := UInt8.lt_iff_toNat_lt.mp hname'
    constructor
    · rintro ⟨p, hp, hcomposed⟩
      exact absurd hcomposed (not_composed hname' hname (Option.some_inj.mp hp))
    · rintro ⟨hheader, hfull⟩
      omega
  · have hless : (availSpace users).toNat ≤ 2 := Nat.le_of_not_lt fun h => hname' (UInt8.lt_iff_toNat_lt.mpr h)
    rw [appendName, if_neg hname']
    constructor
    · intro _
      rw [LeavesNoName]
      omega
    · intro _
      exact ⟨users, rfl, hlegal, .inl rfl⟩

end Names

/-- A user whose data takes this many bytes. -/
def fillOf (advDataLen : UInt8) (p : AdvParam) : AdvParam := { p with advDataLen := advDataLen }

theorem composed_behind_user : ∃ p, bleAdvConfigParam [none, some (fillOf 25)] [0x61, 0x62, 0x63] 13 160 false = some (some p) ∧
    Composed (fillOf 25 (.initial 13 160 false)) [0x61, 0x62, 0x63] p :=
  (composed_iff [none, some (fillOf 25)] [0x61, 0x62, 0x63] 13 160 false (fillOf 25 (.initial 13 160 false)) (by decide) rfl).mpr
    ⟨by decide, by decide⟩

/-- The whole name is put there as a shortened one. -/
theorem whole_name_shortened :
    (∃ p, bleAdvConfigParam [] [0x61, 0x62, 0x63] 13 160 false = some (some p) ∧ p.payload = [4, 0x08, 0x61, 0x62, 0x63]) ∧
      ¬∃ p, bleAdvConfigParam [] [0x61, 0x62, 0x63] 13 160 false = some (some p) ∧
        Composed (.initial 13 160 false) [0x61, 0x62, 0x63] p := by
  refine ⟨⟨_, rfl, rfl⟩, ?_⟩
  rintro ⟨p, hp, hcomposed⟩
  exact not_composed (by decide) (by decide) (Option.some_inj.mp hp) hcomposed

end BleApp.AdvConfig
