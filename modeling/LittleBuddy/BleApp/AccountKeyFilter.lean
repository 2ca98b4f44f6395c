import LittleBuddy.BleApp.Gfps
import LittleBuddy.Lib.BitFilter
/-!
# The account key filter

`app_gfps_generate_accountkey_data` advertises a filter of the stored account
keys, with the battery's values behind it. A seeker looks for the bits of its
own account key.
-/

namespace Gfps

/-! ## Buffers -/

/-- Bytes are copied to offset `i` of a buffer. Out of the buffer there is no result. -/
def put (i : Nat) (bytes buf : List UInt8) : Option (List UInt8) :=
  if i + bytes.length ≤ buf.length then some (buf.take i ++ bytes ++ buf.drop (i + bytes.length)) else none

/-- `n` bytes from offset `i` of a buffer. Out of the buffer there is no result. -/
def slice (i n : Nat) (buf : List UInt8) : Option (List UInt8) :=
  if i + n ≤ buf.length then some ((buf.drop i).take n) else none

section Buffers

variable {i n : Nat} {front bytes rest : List UInt8}

theorem put_append (hi : i = front.length) (hfits : bytes.length ≤ rest.length) :
    put i bytes (front ++ rest) = some (front ++ (bytes ++ rest.drop bytes.length)) := by
  subst hi
  rw [put, if_pos (by rw [List.length_append]; omega), List.take_left, List.append_assoc, List.drop_append,
    List.drop_eq_nil_of_le (Nat.le_add_right _ _), List.nil_append, Nat.add_sub_cancel_left]

theorem put_zero (hfits : bytes.length ≤ rest.length) : put 0 bytes rest = some (bytes ++ rest.drop bytes.length) :=
  put_append (List.length_nil).symm hfits

theorem slice_append (hi : i = front.length) (hn : n = bytes.length) : slice i n (front ++ (bytes ++ rest)) = some bytes := by
  subst hi hn
  rw [slice, if_pos (by simp only [List.length_append]; omega), List.drop_left, List.take_left]

theorem slice_zero (hn : n = bytes.length) : slice 0 n (bytes ++ rest) = some bytes :=
  slice_append (List.length_nil).symm hn

end Buffers

/-! ## The code -/

/-- `FP_ACCOUNT_KEY_SIZE`. -/
abbrev fpAccountKeySize : Nat := 16

/-- `GFPS_BATTERY_VALUE_MAX_COUNT`. -/
abbrev gfpsBatteryValueMaxCount : Nat := 3

/-- `GFPS_BATTERY_DATA_TYPE_E`. -/
inductive BatteryDataType where
  | hideSubsequentIndication
  | showUiIndication
  | hideUiIndication

def BatteryDataType.value : BatteryDataType → UInt8
  | hideSubsequentIndication => 2
  | showUiIndication => 3
  | hideUiIndication => 4

/-- The fields of `app_gfps_env` for the battery, and what `get_battery_info_handler` answers; without a handler
there are no levels. -/
structure Battery where
  isBatteryInfoIncluded : Bool
  batteryDataType : BatteryDataType
  batteryLevel : List UInt8
  batteryLevelCount : batteryLevel.length ≤ gfpsBatteryValueMaxCount

/-- The arrays on the stack as they are found, and the buffer of the caller, which has 32 bytes from `serviceData`
on. -/
structure Buffers where
  accountKeyData : List UInt8
  accountKeyData_length : accountKeyData.length = 32
  VArray : List UInt8
  VArray_length : VArray.length = fpAccountKeySize + 6 + 4
  batteryFollowingData : List UInt8
  batteryFollowingData_length : batteryFollowingData.length = 1 + gfpsBatteryValueMaxCount
  outputData : List UInt8
  outputData_length : outputData.length = 32 - 4

/-- `sizeOfFilter`: 1.2 as a `float` is 10066330 / 2^23, and the rounding of the product does not change its floor. -/
def sizeOfFilter (keyCount : Nat) : Nat := 10066330 * keyCount / 2 ^ 23 % 2 ^ 8 + 3

/-- `FArray`, cleared. -/
def clearedFArray : List UInt8 := List.replicate (2 * FP_ACCOUNT_KEY_RECORD_NUM + 3) 0

/-- `pX`: the eight words of a hash. -/
def hashWords (hash256Result : Bytes 32) : List Nat :=
  List.ofFn fun i : Fin 8 =>
    (hash256Result ⟨4 * i, by omega⟩).toNat * 2 ^ 24 + (hash256Result ⟨4 * i + 1, by omega⟩).toNat * 2 ^ 16 +
      (hash256Result ⟨4 * i + 2, by omega⟩).toNat * 2 ^ 8 + (hash256Result ⟨4 * i + 3, by omega⟩).toNat

/-- The variables of the loop over the keys. -/
structure Work where
  VArray : List UInt8
  FArray : List UInt8
  batteryFollowingData : List UInt8
  batteryFollowingDataLen : Nat

/-- The battery information goes into `VArray` and from there into `batteryFollowingData`; the answer has
`offsetOfVArray` behind it. -/
def putBattery (b : Battery) (offsetOfVArray : Nat) (w : Work) : Option (Nat × Work) :=
  if b.isBatteryInfoIncluded then do
    let VArray ← put offsetOfVArray [b.batteryDataType.value ||| UInt8.ofNat b.batteryLevel.length <<< 4] w.VArray
    let VArray ← put (offsetOfVArray + 1) b.batteryLevel VArray
    let len := b.batteryLevel.length + 1
    let batteryFollowingData ← put 0 (← slice offsetOfVArray len VArray) w.batteryFollowingData
    some (offsetOfVArray + len,
      { w with VArray := VArray, batteryFollowingData := batteryFollowingData, batteryFollowingDataLen := len })
  else some (offsetOfVArray, w)

/-- A turn of the loop: `Xi % (s * 8)` of each word of the hash is set in `FArray`. -/
def keyTurn (sha : List UInt8 → Bytes 32) (currentBleAddr : Addr) (b : Battery) (size : Nat) (key : Block) (w : Work) :
    Option Work := do
  let VArray ← put 0 (List.ofFn key) w.VArray
  let VArray ← put fpAccountKeySize (List.ofFn (bigLittleSwitch currentBleAddr)) VArray
  let (offsetOfVArray, w) ← putBattery b (fpAccountKeySize + 6) { w with VArray := VArray }
  let pX := hashWords (sha (← slice 0 offsetOfVArray w.VArray))
  let FArray ← BitFilter.putAll (pX.map (· % (size * 8))) w.FArray
  some { w with FArray := FArray }

/-- The loop over the keys. -/
def keyTurns (sha : List UInt8 → Bytes 32) (currentBleAddr : Addr) (b : Battery) (size : Nat) :
    List Block → Work → Option Work
  | [], w => some w
  | key :: keys, w => (keyTurn sha currentBleAddr b size key w).bind (keyTurns sha currentBleAddr b size keys)

/-- `app_gfps_generate_accountkey_data`: its result, and the buffer of the caller. -/
def appGfpsGenerateAccountkeyData (sha : List UInt8 → Bytes 32) (nv : Record) (currentBleAddr : Addr) (b : Battery)
    (bufs : Buffers) : Option (UInt8 × List UInt8) :=
  if nv.accountKey.length = 0 then (put 0 [0, 0] bufs.outputData).map fun out => (2, out)
  else do
    let size := sizeOfFilter nv.accountKey.length
    let accountKeyData ← put 0 [0] bufs.accountKeyData
    let w ← keyTurns sha currentBleAddr b size nv.accountKey ⟨bufs.VArray, clearedFArray, bufs.batteryFollowingData, 0⟩
    let accountKeyData ← put 2 (← slice 0 size w.FArray) accountKeyData
    let accountKeyData ← put 1 [UInt8.ofNat (size <<< 4)] accountKeyData
    let accountKeyDataLen := size + 2
    let out ← put 0 (← slice 0 accountKeyDataLen accountKeyData) bufs.outputData
    let out ← put accountKeyDataLen (← slice 0 w.batteryFollowingDataLen w.batteryFollowingData) out
    some (UInt8.ofNat (accountKeyDataLen + w.batteryFollowingDataLen), out)

/-! ## What a seeker looks for -/

/-- The bytes of the battery that are advertised. -/
def Battery.bytes (b : Battery) : List UInt8 :=
  if b.isBatteryInfoIncluded then
    (b.batteryDataType.value ||| UInt8.ofNat b.batteryLevel.length <<< 4) :: b.batteryLevel
  else []

/-- The filter has all bits of an account key: its length is in the header, the battery is behind it, and the hash is
that of the key, the address and the battery. -/
def SeekerFinds (sha : List UInt8 → Bytes 32) (address : Addr) (data : List UInt8) (key : Block) : Prop :=
  ∃ header, data[1]? = some header ∧
    ∀ x ∈ hashWords (sha (List.ofFn key ++ (List.ofFn address ++ data.drop (2 + header.toNat / 16)))),
      BitFilter.Has ((data.drop 2).take (header.toNat / 16)) (x % (header.toNat / 16 * 8))

section Filters

variable {sha : List UInt8 → Bytes 32} {addr : Addr} {b : Battery} {size : Nat} {w : Work}

/-- The bits of a key. -/
def positions (sha : List UInt8 → Bytes 32) (addr : Addr) (b : Battery) (size : Nat) (key : Block) : List Nat :=
  (hashWords (sha (List.ofFn key ++ (List.ofFn (bigLittleSwitch addr) ++ b.bytes)))).map (· % (size * 8))

theorem positions_lt (hsize : 0 < size) {key : Block} {x : Nat} (hx : x ∈ positions sha addr b size key) : x < size * 8 := by
  obtain ⟨y, -, rfl⟩ := List.mem_map.mp hx
  exact Nat.mod_lt y (Nat.mul_pos hsize (by decide))

/-- The arrays have their lengths, and `batteryFollowingData` is empty as long as nothing was put into it. -/
structure Work.Ready (b : Battery) (w : Work) : Prop where
  VArray : w.VArray.length = 26
  FArray : w.FArray.length = 13
  batteryFollowingData : w.batteryFollowingData.length = 4
  len : b.isBatteryInfoIncluded = false → w.batteryFollowingDataLen = 0

/-- The battery's bytes are in `batteryFollowingData`. -/
def Work.Followed (b : Battery) (w : Work) : Prop :=
  w.batteryFollowingDataLen = b.bytes.length ∧ ∃ rest, w.batteryFollowingData = b.bytes ++ rest

theorem length_batteryBytes (b : Battery) : b.bytes.length ≤ 4 := by
  rw [Battery.bytes]
  split
  · exact Nat.succ_le_succ b.batteryLevelCount
  · exact Nat.zero_le 4

/-- The battery's bytes behind those in `VArray`. -/
theorem putBattery_spec (h : w.Ready b) {front : List UInt8} (hfront : front.length = 22) {rest : List UInt8}
    (hVArray : w.VArray = front ++ rest) :
    ∃ w' rest', putBattery b 22 w = some (22 + b.bytes.length, w') ∧ w'.VArray = front ++ (b.bytes ++ rest') ∧ w'.Ready b ∧
      w'.Followed b ∧ w'.FArray = w.FArray := by
  cases hincluded : b.isBatteryInfoIncluded with
  | false =>
    have hbytes : b.bytes = [] := by rw [Battery.bytes, hincluded]; rfl
    rw [putBattery, hincluded, hbytes]
    refine ⟨w, rest, rfl, hVArray, h, ?_, rfl⟩
    rw [Work.Followed, hbytes]
    exact ⟨h.len hincluded, _, rfl⟩
  | true =>
    obtain ⟨hv, hf, hd, -⟩ := h
    have hlevels : b.batteryLevel.length ≤ 3 := b.batteryLevelCount
    obtain ⟨header, hheader⟩ : ∃ header, b.batteryDataType.value ||| UInt8.ofNat b.batteryLevel.length <<< 4 = header :=
      ⟨_, rfl⟩
    have hbytes : b.bytes = header :: b.batteryLevel := by rw [Battery.bytes, hincluded, if_pos rfl, hheader]
    rw [hVArray, List.length_append, hfront] at hv
    have hput : put 22 [header] w.VArray = some (front ++ ([header] ++ rest.drop 1)) := by
      rw [hVArray]
      exact put_append hfront.symm (by rw [List.length_singleton]; omega)
    have hbehind : put (22 + 1) b.batteryLevel (front ++ ([header] ++ rest.drop 1)) =
        some (front ++ (header :: b.batteryLevel ++ rest.drop (b.batteryLevel.length + 1))) := by
      rw [← List.append_assoc, put_append (by rw [List.length_append, hfront]; rfl) (by rw [List.length_drop]; omega),
        List.drop_drop, Nat.add_comm 1, List.append_assoc]
      rfl
    have hslice : slice 22 (b.batteryLevel.length + 1)
        (front ++ (header :: b.batteryLevel ++ rest.drop (b.batteryLevel.length + 1))) = some (header :: b.batteryLevel) :=
      slice_append hfront.symm rfl
    have hfollowing : put 0 (header :: b.batteryLevel) w.batteryFollowingData =
        some (header :: b.batteryLevel ++ w.batteryFollowingData.drop (b.batteryLevel.length + 1)) :=
      put_zero (by rw [List.length_cons]; omega)
    rw [← hbytes] at hbehind hslice hfollowing
    have hlength : b.bytes.length = b.batteryLevel.length + 1 := by rw [hbytes, List.length_cons]
    refine ⟨⟨front ++ (b.bytes ++ rest.drop (b.batteryLevel.length + 1)), w.FArray,
      b.bytes ++ w.batteryFollowingData.drop (b.batteryLevel.length + 1), b.batteryLevel.length + 1⟩,
      rest.drop (b.batteryLevel.length + 1), ?_, rfl, ⟨?_, hf, ?_, ?_⟩, ⟨hlength.symm, _, rfl⟩, rfl⟩
    · rw [putBattery, if_pos hincluded, hheader, hput, hlength]
      simp only [Option.bind_eq_bind, Option.bind_some, hbehind, hslice, hfollowing]
    · simp only [List.length_append, List.length_drop, hlength]
      omega
    · simp only [List.length_append, List.length_drop, hlength]
      omega
    · intro hnot
      cases hincluded.symm.trans hnot

/-- A turn sets the bits of its key. -/
theorem keyTurn_spec (sha : List UInt8 → Bytes 32) (addr : Addr) (h : w.Ready b) (hsize : 0 < size) (hle : size ≤ 13)
    (key : Block) : ∃ w', keyTurn sha addr b size key w = some w' ∧ w'.Ready b ∧ w'.Followed b ∧
      BitFilter.putAll (positions sha addr b size key) w.FArray = some w'.FArray := by
  obtain ⟨k, hk⟩ : ∃ k, k = List.ofFn key := ⟨_, rfl⟩
  obtain ⟨a, ha⟩ : ∃ a, a = List.ofFn (bigLittleSwitch addr) := ⟨_, rfl⟩
  have hklen : k.length = 16 := by rw [hk, List.length_ofFn]
  have halen : a.length = 6 := by rw [ha, List.length_ofFn]
  have hput : put 0 k w.VArray = some (k ++ w.VArray.drop 16) := by
    rw [put_zero (by rw [hklen, h.VArray]; decide), hklen]
  have hbehind : put 16 a (k ++ w.VArray.drop 16) = some (k ++ a ++ w.VArray.drop 22) := by
    rw [put_append hklen.symm (by rw [halen, List.length_drop, h.VArray]; decide), halen, List.drop_drop, List.append_assoc]
  have hready : Work.Ready b { w with VArray := k ++ a ++ w.VArray.drop 22 } :=
    ⟨by simp only [List.length_append, List.length_drop, hklen, halen, h.VArray], h.FArray, h.batteryFollowingData, h.len⟩
  obtain ⟨w₁, rest, hbattery, hVArray, hready₁, hfollowed, hFArray⟩ :=
    putBattery_spec hready (show (k ++ a).length = 22 by rw [List.length_append, hklen, halen]) rfl
  have hslice : slice 0 (22 + b.bytes.length) w₁.VArray = some (k ++ (a ++ b.bytes)) := by
    rw [hVArray, ← List.append_assoc, ← List.append_assoc]
    exact slice_zero (by simp only [List.length_append, hklen, halen])
  have hin : ∀ x ∈ positions sha addr b size key, x / 8 < w₁.FArray.length := by
    intro x hx
    have hlt := positions_lt hsize hx
    rw [hready₁.FArray]
    omega
  obtain ⟨FArray, hbits, hlength, -⟩ := BitFilter.putAll_spec hin
  have hsame : w₁.FArray = w.FArray := hFArray
  refine ⟨{ w₁ with FArray := FArray }, ?_, ?_, hfollowed, ?_⟩
  · rw [positions, ← hk, ← ha] at hbits
    rw [keyTurn, ← hk, ← ha, hput]
    simp only [Option.bind_eq_bind, Option.bind_some, hbehind, hbattery, hslice, hbits]
  · exact ⟨hready₁.VArray, hlength.trans hready₁.FArray, hready₁.batteryFollowingData, hready₁.len⟩
  · rw [← hsame]
    exact hbits

/-- The loop sets the bits of all keys. -/
theorem keyTurns_spec (sha : List UInt8 → Bytes 32) (addr : Addr) (h : w.Ready b) (hsize : 0 < size) (hle : size ≤ 13) (keys : List Block) :
    ∃ w', keyTurns sha addr b size keys w = some w' ∧ w'.Ready b ∧ (keys ≠ [] → w'.Followed b) ∧
      BitFilter.putAll (keys.flatMap (positions sha addr b size)) w.FArray = some w'.FArray := by
  induction keys generalizing w with
  | nil => exact ⟨w, rfl, h, fun hne => absurd rfl hne, rfl⟩
  | cons key keys ih =>
    obtain ⟨w₁, hturn, hready, hfollowed, hput⟩ := keyTurn_spec sha addr h hsize hle key
    obtain ⟨w', hturns, hready', hfollowed', hputs⟩ := ih hready
    refine ⟨w', by rw [keyTurns, hturn, Option.bind_some, hturns], hready', fun _ => ?_, ?_⟩
    · cases keys with
      | nil =>
        obtain rfl := Option.some_inj.mp hturns
        exact hfollowed
      | cons => exact hfollowed' (List.cons_ne_nil _ _)
    · rw [List.flatMap_cons, BitFilter.putAll_append, hput, Option.bind_some, hputs]

theorem sizeOfFilter_bounds {keyCount : Nat} (h : keyCount ≤ 5) : 0 < sizeOfFilter keyCount ∧ sizeOfFilter keyCount ≤ 9 := by
  have hall : ∀ n < 6, 0 < sizeOfFilter n ∧ sizeOfFilter n ≤ 9 := by decide
  exact hall keyCount (Nat.lt_succ_of_le h)

/-- The bytes of a filter. -/
def filterData (size : Nat) (FArray batteryBytes : List UInt8) : List UInt8 :=
  [0, UInt8.ofNat (size <<< 4)] ++ FArray.take size ++ batteryBytes

theorem length_filterData {FArray : List UInt8} (h : size ≤ FArray.length) (batteryBytes : List UInt8) :
    (filterData size FArray batteryBytes).length = size + 2 + batteryBytes.length := by
  rw [filterData, List.length_append, List.length_append, List.length_take, Nat.min_eq_left h, Nat.add_comm size]
  rfl

/-- A seeker finds a key whose bits are in the filter. -/
theorem seekerFinds_filterData {FArray : List UInt8} (hpos : 0 < size) (hle : size ≤ 9) (hlength : FArray.length = 13)
    {key : Block} (hhas : ∀ x ∈ positions sha addr b size key, BitFilter.Has FArray x) :
    SeekerFinds sha (bigLittleSwitch addr) (filterData size FArray b.bytes) key := by
  have hheader : (UInt8.ofNat (size <<< 4)).toNat / 16 = size := by
    rw [UInt8.toNat_ofNat', Nat.shiftLeft_eq]
    omega
  have htake : (FArray.take size).length = size := by
    rw [List.length_take, hlength]
    omega
  have hfilter : (filterData size FArray b.bytes).drop 2 = FArray.take size ++ b.bytes := rfl
  refine ⟨UInt8.ofNat (size <<< 4), rfl, fun x hx => ?_⟩
  rw [hheader] at hx ⊢
  rw [← List.drop_drop, hfilter, List.drop_left' htake] at hx
  rw [hfilter, List.take_left' htake, BitFilter.has_take]
  · exact hhas _ (List.mem_map_of_mem hx)
  · rw [Nat.mul_comm 8]
    exact Nat.mod_lt _ (Nat.mul_pos hpos (by decide))

/-- The bits of the filter that the keys set. -/
theorem keys_bits (sha : List UInt8 → Bytes 32) (addr : Addr) (b : Battery) (hpos : 0 < size) (hle : size ≤ 9)
    (keys : List Block) :
    ∃ FArray, BitFilter.putAll (keys.flatMap (positions sha addr b size)) clearedFArray = some FArray ∧ FArray.length = 13 ∧
      ∀ key ∈ keys, ∀ x ∈ positions sha addr b size key, BitFilter.Has FArray x := by
  have hin : ∀ x ∈ keys.flatMap (positions sha addr b size), x / 8 < clearedFArray.length := by
    intro x hx
    obtain ⟨key, -, hx⟩ := List.mem_flatMap.mp hx
    have hlt := positions_lt hpos hx
    have hcleared : clearedFArray.length = 13 := List.length_replicate
    omega
  obtain ⟨FArray, hbits, hlength, hhas⟩ := BitFilter.putAll_spec hin
  refine ⟨FArray, hbits, hlength.trans List.length_replicate, fun key hkey x hx => ?_⟩
  exact (hhas x).mpr (.inl (List.mem_flatMap_of_mem hkey hx))

/-- The output with keys, whatever the buffers hold. -/
theorem generate_eq {nv : Record} (hkeys : nv.accountKey ≠ []) (hsize : size = sizeOfFilter nv.accountKey.length)
    {FArray : List UInt8} (hbits : BitFilter.putAll (nv.accountKey.flatMap (positions sha addr b size)) clearedFArray = some FArray)
    (bufs : Buffers) : appGfpsGenerateAccountkeyData sha nv addr b bufs =
      some (UInt8.ofNat (filterData size FArray b.bytes).length,
        filterData size FArray b.bytes ++ bufs.outputData.drop (filterData size FArray b.bytes).length) := by
  obtain ⟨hpos, hle⟩ := sizeOfFilter_bounds nv.key_count
  rw [← hsize] at hpos hle
  have hready : Work.Ready b ⟨bufs.VArray, clearedFArray, bufs.batteryFollowingData, 0⟩ :=
    ⟨bufs.VArray_length, List.length_replicate, bufs.batteryFollowingData_length, fun _ => rfl⟩
  obtain ⟨w, hturns, hready', hfollowed, hFArray⟩ := keyTurns_spec sha addr hready hpos (by omega) nv.accountKey
  obtain rfl := Option.some_inj.mp (hbits.symm.trans hFArray)
  obtain ⟨hlen, rest, hfollowing⟩ := hfollowed hkeys
  have hbattery := length_batteryBytes b
  obtain ⟨x, y, behind, hdata⟩ : ∃ x y behind, bufs.accountKeyData = x :: y :: behind := by
    have h := bufs.accountKeyData_length
    match bufs.accountKeyData, h with
    | x :: y :: behind, _ => exact ⟨x, y, behind, rfl⟩
  have hbehind : behind.length = 30 := by
    have h := bufs.accountKeyData_length
    rw [hdata] at h
    exact Nat.succ.inj (Nat.succ.inj h)
  have htake : (w.FArray.take size).length = size := by
    rw [List.length_take, hready'.FArray]
    omega
  have hslice : slice 0 size w.FArray = some (w.FArray.take size) := if_pos (by rw [hready'.FArray]; omega)
  -- `accountKeyData`, from its first byte to the header
  obtain ⟨filter, hfilter⟩ : ∃ filter, filter = [0, UInt8.ofNat (size <<< 4)] ++ w.FArray.take size := ⟨_, rfl⟩
  have hlength : filter.length = size + 2 := by
    rw [hfilter, List.length_append, htake, Nat.add_comm]
    rfl
  have hfirst : put 0 [0] bufs.accountKeyData = some ([0, y] ++ behind) := by
    rw [hdata]
    exact put_zero (Nat.le_add_left 1 _)
  have hbits : put 2 (w.FArray.take size) ([0, y] ++ behind) = some ([0, y] ++ (w.FArray.take size ++ behind.drop size)) := by
    rw [put_append (show 2 = [0, y].length from rfl) (by omega), htake]
  have hheader : put 1 [UInt8.ofNat (size <<< 4)] ([0, y] ++ (w.FArray.take size ++ behind.drop size)) =
      some (filter ++ behind.drop size) := by
    rw [hfilter, List.append_assoc]
    exact put_append (show 1 = [(0 : UInt8)].length from rfl) (Nat.le_add_left 1 _)
  -- what goes into the output
  have hkeysOut : put 0 filter bufs.outputData = some (filter ++ bufs.outputData.drop (size + 2)) := by
    rw [put_zero (by rw [bufs.outputData_length]; omega), hlength]
  have hbatteryOut : put (size + 2) b.bytes (filter ++ bufs.outputData.drop (size + 2)) =
      some (filter ++ (b.bytes ++ bufs.outputData.drop (size + 2 + b.bytes.length))) := by
    rw [put_append hlength.symm (by rw [List.length_drop, bufs.outputData_length]; omega), List.drop_drop]
  have hslice' : slice 0 (size + 2) (filter ++ behind.drop size) = some filter := slice_zero hlength.symm
  have hbatterySlice : slice 0 b.bytes.length w.batteryFollowingData = some b.bytes := by
    rw [hfollowing]
    exact slice_zero rfl
  rw [appGfpsGenerateAccountkeyData, if_neg fun h => hkeys (List.length_eq_zero_iff.mp h), ← hsize, filterData, ← hfilter]
  simp only [Option.bind_eq_bind, Option.bind_some, hfirst, hturns, hslice, hbits, hheader, hslice', hkeysOut, hbatterySlice,
    hbatteryOut, List.length_append, List.append_assoc, hlength, hlen]

end Filters

/-- A filter of the keys is within the arrays, its length is what is returned, and each stored key is found. -/
theorem no_false_negatives (sha : List UInt8 → Bytes 32) (nv : Record) (bleAddr : Addr) (b : Battery) :
    ∃ data : List UInt8, data.length ≤ 28 ∧
      (∀ bufs, appGfpsGenerateAccountkeyData sha nv bleAddr b bufs =
        some (UInt8.ofNat data.length, data ++ bufs.outputData.drop data.length)) ∧
      ∀ key ∈ nv.accountKey, SeekerFinds sha (bigLittleSwitch bleAddr) data key := by
  by_cases hkeys : nv.accountKey = []
  · refine ⟨[0, 0], by decide, fun bufs => ?_, fun key hkey => ?_⟩
    · rw [appGfpsGenerateAccountkeyData, if_pos (by rw [hkeys]; rfl),
        put_zero (by rw [bufs.outputData_length]; decide), Option.map_some]
      rfl
    · rw [hkeys] at hkey
      cases hkey
  · obtain ⟨hpos, hle⟩ := sizeOfFilter_bounds nv.key_count
    obtain ⟨FArray, hbits, hlength, hhas⟩ := keys_bits sha bleAddr b hpos hle nv.accountKey
    have hbattery := length_batteryBytes b
    refine ⟨_, ?_, generate_eq hkeys rfl hbits, fun key hkey => seekerFinds_filterData hpos hle hlength (hhas key hkey)⟩
    rw [length_filterData (by omega)]
    omega

end Gfps
