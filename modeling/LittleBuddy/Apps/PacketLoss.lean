import Mathlib.Algebra.Order.BigOperators.Group.Finset
import Mathlib.Algebra.BigOperators.Group.Finset.Piecewise
import Mathlib.Data.Fintype.Defs
import Mathlib.Tactic.Common
/-!
# Packet loss detection

`apps/audioplayers/plc_utils.c` classifies the mSBC packets of a call. A packet
that repeats the one before the last is taken for a BLE conflict, unless that
one was. `detects_iff` says which packets are classified so as they should be.

`ENABLE_PAD_CHECK` and `ENABLE_TRAILING_ZERO_CHECK` are not defined.
-/

namespace PlcUtils

/-! ## The code -/

/-- `MSBC_PKTSIZE`. -/
abbrev msbcPktsize : Nat := 60

/-- A packet of `MSBC_PKTSIZE` bytes. -/
abbrev Pkt := Vector UInt8 msbcPktsize

/-- `buf[i]`, for an `i` below the size. -/
def Pkt.byte (buf : Pkt) (i : Nat) : UInt8 := buf[i]?.getD 0

/-- `plc_type_t`. -/
inductive PlcType where
  | pass | controllerMute | headerError | crcError | padError | dataMissing | sequenceDiscontinue | bleConflict
  | decoderError
  deriving DecidableEq

instance : Fintype PlcType where
  elems := {.pass, .controllerMute, .headerError, .crcError, .padError, .dataMissing, .sequenceDiscontinue,
    .bleConflict, .decoderError}
  complete := by rintro (_ | _ | _ | _ | _ | _ | _ | _ | _) <;> decide

/-- What the build chooses: `MSBC_MUTE_PATTERN`, and whether `MSBC_SYNC_HACKER` is defined. -/
structure Config where
  mutePattern : UInt8
  syncHacker : Bool

/-- `PacketLossState`; the first half of `last_pkt` is the older packet. -/
structure PacketLossState where
  last_seq_num : UInt8
  last_pkt : Pkt × Pkt
  prev_ble_sco_conflict_flag : Bool × Bool
  hist : PlcType → UInt32

/-- `sbc_crc_tbl`. -/
def sbcCrcTbl : Array UInt8 :=
  #[0x00, 0x1D, 0x3A, 0x27, 0x74, 0x69, 0x4E, 0x53, 0xE8, 0xF5, 0xD2, 0xCF, 0x9C, 0x81, 0xA6, 0xBB,
   0xCD, 0xD0, 0xF7, 0xEA, 0xB9, 0xA4, 0x83, 0x9E, 0x25, 0x38, 0x1F, 0x02, 0x51, 0x4C, 0x6B, 0x76,
   0x87, 0x9A, 0xBD, 0xA0, 0xF3, 0xEE, 0xC9, 0xD4, 0x6F, 0x72, 0x55, 0x48, 0x1B, 0x06, 0x21, 0x3C,
   0x4A, 0x57, 0x70, 0x6D, 0x3E, 0x23, 0x04, 0x19, 0xA2, 0xBF, 0x98, 0x85, 0xD6, 0xCB, 0xEC, 0xF1,
   0x13, 0x0E, 0x29, 0x34, 0x67, 0x7A, 0x5D, 0x40, 0xFB, 0xE6, 0xC1, 0xDC, 0x8F, 0x92, 0xB5, 0xA8,
   0xDE, 0xC3, 0xE4, 0xF9, 0xAA, 0xB7, 0x90, 0x8D, 0x36, 0x2B, 0x0C, 0x11, 0x42, 0x5F, 0x78, 0x65,
   0x94, 0x89, 0xAE, 0xB3, 0xE0, 0xFD, 0xDA, 0xC7, 0x7C, 0x61, 0x46, 0x5B, 0x08, 0x15, 0x32, 0x2F,
   0x59, 0x44, 0x63, 0x7E, 0x2D, 0x30, 0x17, 0x0A, 0xB1, 0xAC, 0x8B, 0x96, 0xC5, 0xD8, 0xFF, 0xE2,
   0x26, 0x3B, 0x1C, 0x01, 0x52, 0x4F, 0x68, 0x75, 0xCE, 0xD3, 0xF4, 0xE9, 0xBA, 0xA7, 0x80, 0x9D,
   0xEB, 0xF6, 0xD1, 0xCC, 0x9F, 0x82, 0xA5, 0xB8, 0x03, 0x1E, 0x39, 0x24, 0x77, 0x6A, 0x4D, 0x50,
   0xA1, 0xBC, 0x9B, 0x86, 0xD5, 0xC8, 0xEF, 0xF2, 0x49, 0x54, 0x73, 0x6E, 0x3D, 0x20, 0x07, 0x1A,
   0x6C, 0x71, 0x56, 0x4B, 0x18, 0x05, 0x22, 0x3F, 0x84, 0x99, 0xBE, 0xA3, 0xF0, 0xED, 0xCA, 0xD7,
   0x35, 0x28, 0x0F, 0x12, 0x41, 0x5C, 0x7B, 0x66, 0xDD, 0xC0, 0xE7, 0xFA, 0xA9, 0xB4, 0x93, 0x8E,
   0xF8, 0xE5, 0xC2, 0xDF, 0x8C, 0x91, 0xB6, 0xAB, 0x10, 0x0D, 0x2A, 0x37, 0x64, 0x79, 0x5E, 0x43,
   0xB2, 0xAF, 0x88, 0x95, 0xC6, 0xDB, 0xFC, 0xE1, 0x5A, 0x47, 0x60, 0x7D, 0x2E, 0x33, 0x14, 0x09,
   0x7F, 0x62, 0x45, 0x58, 0x0B, 0x16, 0x31, 0x2C, 0x97, 0x8A, 0xAD, 0xB0, 0xE3, 0xFE, 0xD9, 0xC4]

/-- A step of the checksum. -/
def crcByte (fcs b : UInt8) : UInt8 := sbcCrcTbl[(fcs ^^^ b).toNat]?.getD 0

/-- The four rounds for the next 4 bits. -/
def crcBits (b : UInt8) (fcs : UInt8) : UInt8 :=
  (List.range 4).foldl (fun fcs i =>
    let bit : UInt8 := ((0x01 : UInt8) &&& (b >>> UInt8.ofNat (7 - i))) ^^^ (fcs >>> 7)
    if bit ≠ 0 then ((fcs <<< 1) ||| bit) ^^^ 0x1C else fcs <<< 1) fcs

/-- The checksum of a packet: `fcs`, `ind` and `bitOffset` go through the 8 subbands. -/
def packetCrc (buf : Pkt) (fcs : UInt8) : UInt8 :=
  ((List.range 8).foldl (fun (x : UInt8 × Nat × Nat) sb =>
    let (fcs, ind, bitOffset) := x
    if bitOffset % 8 ≠ 0 then (crcByte fcs (buf.byte ind), ind + 1, bitOffset + 4)
    else if sb = 7 then (crcBits (buf.byte ind) fcs, ind, bitOffset + 4)
    else (fcs, ind, bitOffset + 4)) (fcs, 6, 24)).1

/-- `sco_parse_synchronization_header`: the error and `*sn`. -/
def scoParseSynchronizationHeader (cfg : Config) (buf : Pkt) : Int × UInt8 :=
  let first := if cfg.syncHacker then buf.byte 0 ≠ 0x01 ∧ buf.byte 0 ≠ 0x00 else buf.byte 0 ≠ 0x01
  if first ∨ buf.byte 1 &&& 0x0f ≠ 0x08 ∨ buf.byte 2 ≠ 0xad then (-1, 0xff)
  else
    let sn1 := (buf.byte 1 &&& 0x30) >>> 4
    let sn2 := (buf.byte 1 &&& 0xc0) >>> 6
    if sn1 ≠ 0 ∧ sn1 ≠ 0x3 then (-2, 0xff)
    else if sn2 ≠ 0 ∧ sn2 ≠ 0x3 then (-3, 0xff)
    else if buf.byte 3 ≠ 0x00 then (-4, 0xff)
    else if buf.byte 4 ≠ 0x00 then (-4, 0xff)
    else if buf.byte 5 ≠ packetCrc buf (crcByte (crcByte 0x0F (buf.byte 3)) (buf.byte 4)) then (-4, 0xff)
    else (0, (sn1 &&& 0x01) ||| (sn2 &&& 0x02))

/-- `memcmp_U8`: the first `size` bytes differ. -/
def memcmpU8 (x y : Pkt) (size : Nat) : Bool := (List.range size).any fun i => x.byte i != y.byte i

/-- `update_ble_sco_conflict`. -/
def updateBleScoConflict (st : PacketLossState) (pkt : Pkt) : Bool × PacketLossState :=
  (st.prev_ble_sco_conflict_flag.2 == false && memcmpU8 st.last_pkt.1 pkt (msbcPktsize - 1) == false,
    { st with last_pkt := (st.last_pkt.2, pkt) })

/-- `check_ble_sco_conflict`. -/
def checkBleScoConflict (st : PacketLossState) (ret : Bool) : Bool × PacketLossState :=
  (ret, { st with prev_ble_sco_conflict_flag := (ret, st.prev_ble_sco_conflict_flag.1) })

/-- `msbc_check_controller_mute_pattern`. -/
def msbcCheckControllerMutePattern (pkt : Pkt) (pattern : UInt8) : Bool :=
  (List.range (msbcPktsize - 1)).all fun i => pkt.byte i == pattern

/-- `get_next_sequence_num`. -/
def getNextSequenceNum (seq_num : UInt8) : UInt8 := if seq_num.toNat + 1 = 4 then 0 else seq_num + 1

/-- `packet_loss_detection_init`. -/
def packetLossDetectionInit : PacketLossState where
  last_seq_num := 0xff
  last_pkt := (.replicate _ 0, .replicate _ 0)
  prev_ble_sco_conflict_flag := (false, false)
  hist := fun _ => 0

/-- `packet_loss_detection_update_histogram`. -/
def packetLossDetectionUpdateHistogram (st : PacketLossState) (plc_type : PlcType) : PacketLossState :=
  let hist := if plc_type = .decoderError then Function.update st.hist .pass (st.hist .pass - 1) else st.hist
  { st with hist := Function.update hist plc_type (hist plc_type + 1) }

/-- The last branch of `packet_loss_detection_process`: the header and the
sequence number. The second component is the new `last_seq_num`. -/
def checkHeader (cfg : Config) (last_seq_num : UInt8) (sbc_buf : Pkt) : PlcType × UInt8 :=
  let (err, seq_num) := scoParseSynchronizationHeader cfg sbc_buf
  if err < 0 ∧ err ≥ -3 then (.headerError, 0xff)
  else if err = -4 then (.crcError, 0xff)
  else if last_seq_num = 0xff then
    if seq_num = 0xff then (.sequenceDiscontinue, seq_num) else (.pass, seq_num)
  else if seq_num = 0xff then (.sequenceDiscontinue, 0xff)
  else if seq_num = getNextSequenceNum last_seq_num then (.pass, seq_num)
  else (.sequenceDiscontinue, 0xff)

/-- `packet_loss_detection_process`. -/
def packetLossDetectionProcess (cfg : Config) (st : PacketLossState) (sbc_buf : Pkt) : PlcType × PacketLossState :=
  let (ble_sco_conflict, st) := updateBleScoConflict st sbc_buf
  if msbcCheckControllerMutePattern sbc_buf cfg.mutePattern then
    (.controllerMute, packetLossDetectionUpdateHistogram { st with last_seq_num := 0xff } .controllerMute)
  else
    let (conflict, st) := checkBleScoConflict st ble_sco_conflict
    if conflict then
      (.bleConflict, packetLossDetectionUpdateHistogram { st with last_seq_num := 0xff } .bleConflict)
    else
      let (plc_type, last_seq_num) := checkHeader cfg st.last_seq_num sbc_buf
      (plc_type, packetLossDetectionUpdateHistogram { st with last_seq_num := last_seq_num } plc_type)

/-- The packets are fed to the classifier, from its init: their classes, and its state. -/
def processAll (cfg : Config) (pkts : List Pkt) : List PlcType × PacketLossState :=
  pkts.foldl (fun (x : List PlcType × PacketLossState) pkt =>
    let (plc_type, st) := packetLossDetectionProcess cfg x.2 pkt
    (x.1 ++ [plc_type], st)) ([], packetLossDetectionInit)

/-! ## What it should find -/

/-- The bytes of two packets that are compared. -/
def Same (x y : Pkt) : Prop := ∀ i, i < msbcPktsize - 1 → x.byte i = y.byte i

/-- A packet with the pattern that the controller puts for a lost one. -/
def Mute (cfg : Config) (pkt : Pkt) : Prop := ∀ i, i < msbcPktsize - 1 → pkt.byte i = cfg.mutePattern

/-- The packet `pkt`, of number `n`, is classified as a BLE conflict exactly if it
is not a mute one and repeats the packet before the last, and that one was not. -/
def DetectedRight (cfg : Config) (pkts : List Pkt) (n : Nat) (pkt : Pkt) : Prop :=
  (processAll cfg pkts).1[n]? = some .bleConflict ↔
    ¬ Mute cfg pkt ∧ ∃ m older, n = m + 2 ∧ pkts[m]? = some older ∧ Same older pkt ∧
      (processAll cfg pkts).1[m]? ≠ some .bleConflict

/-- What the detection needs of the packet `pkt` after the packets `before`: if
it is not a mute one, it must not repeat the zeros of the init, and where it
repeats the packet before the last behind a mute one, the two stored verdicts
must be the same. -/
def Aligned (cfg : Config) (before : List Pkt) (pkt : Pkt) : Prop :=
  Mute cfg pkt ∨
    (before.length < 2 → ¬ Same (.replicate _ 0) pkt) ∧
    ∀ earlier older last, before = earlier ++ [older, last] → Mute cfg last → Same older pkt →
      (processAll cfg before).2.prev_ble_sco_conflict_flag.1 = (processAll cfg before).2.prev_ble_sco_conflict_flag.2

/-! ## One packet -/

variable {cfg : Config} {st : PacketLossState} {pkt older last : Pkt} {before pkts : List Pkt}

theorem memcmpU8_eq_false {x y : Pkt} : memcmpU8 x y (msbcPktsize - 1) = false ↔ Same x y := by
  unfold memcmpU8 Same
  rw [List.any_eq_false]
  simp [List.mem_range]

theorem mute_iff : msbcCheckControllerMutePattern pkt cfg.mutePattern = true ↔ Mute cfg pkt := by
  unfold msbcCheckControllerMutePattern Mute
  rw [List.all_eq_true]
  simp [List.mem_range]

/-- A packet like a mute one is mute. -/
theorem Mute.same (h : Mute cfg older) (hs : Same older pkt) : Mute cfg pkt := by
  intro i hi
  rw [← hs i hi]
  exact h i hi

@[simp] theorem updateHistogram_last_pkt (t : PlcType) :
    (packetLossDetectionUpdateHistogram st t).last_pkt = st.last_pkt := rfl

@[simp] theorem updateHistogram_flag (t : PlcType) :
    (packetLossDetectionUpdateHistogram st t).prev_ble_sco_conflict_flag = st.prev_ble_sco_conflict_flag := rfl

theorem checkHeader_ne (cfg : Config) (last_seq_num : UInt8) (sbc_buf : Pkt) :
    (checkHeader cfg last_seq_num sbc_buf).1 ≠ .bleConflict ∧ (checkHeader cfg last_seq_num sbc_buf).1 ≠ .decoderError := by
  unfold checkHeader
  dsimp only
  split_ifs <;> simp

/-- What a packet does to the state. -/
structure Processed (cfg : Config) (st : PacketLossState) (pkt : Pkt) (t : PlcType) (st' : PacketLossState) : Prop where
  verdict : t = .bleConflict ↔ ¬ Mute cfg pkt ∧ st.prev_ble_sco_conflict_flag.2 = false ∧ Same st.last_pkt.1 pkt
  last_pkt : st'.last_pkt = (st.last_pkt.2, pkt)
  /-- The verdict is stored, but not that of a mute packet. -/
  flag_mute : Mute cfg pkt → st'.prev_ble_sco_conflict_flag = st.prev_ble_sco_conflict_flag
  flag : ¬ Mute cfg pkt →
    st'.prev_ble_sco_conflict_flag = (decide (t = .bleConflict), st.prev_ble_sco_conflict_flag.1)
  hist : st'.hist = Function.update st.hist t (st.hist t + 1)

theorem processed (cfg : Config) (st : PacketLossState) (pkt : Pkt) :
    Processed cfg st pkt (packetLossDetectionProcess cfg st pkt).1 (packetLossDetectionProcess cfg st pkt).2 := by
  have hsame : (updateBleScoConflict st pkt).1 = true ↔
      st.prev_ble_sco_conflict_flag.2 = false ∧ Same st.last_pkt.1 pkt := by
    unfold updateBleScoConflict
    rw [Bool.and_eq_true, beq_iff_eq, beq_iff_eq, memcmpU8_eq_false]
  unfold packetLossDetectionProcess
  cases hu : updateBleScoConflict st pkt with
  | mk b st₁ =>
    obtain rfl : st₁ = { st with last_pkt := (st.last_pkt.2, pkt) } := congrArg Prod.snd hu.symm
    rw [hu] at hsame
    dsimp only [checkBleScoConflict] at hsame ⊢
    by_cases hm : Mute cfg pkt
    · rw [if_pos (mute_iff.2 hm)]
      refine ⟨?_, rfl, fun _ => rfl, fun h => absurd hm h, rfl⟩
      simp [hm]
    rw [if_neg (mt mute_iff.1 hm)]
    cases b with
    | true =>
      refine ⟨?_, rfl, fun h => absurd h hm, fun _ => rfl, rfl⟩
      simp only [if_true, hm, not_false_iff, true_and, true_iff]
      exact hsame.1 rfl
    | false =>
      have hne := checkHeader_ne cfg st.last_seq_num pkt
      simp only [Bool.false_eq_true, if_false]
      refine ⟨?_, rfl, fun h => absurd h hm, fun _ => ?_, ?_⟩
      · rw [← hsame]
        simpa [hm] using hne.1
      · show (false, _) = (decide _, _)
        rw [decide_eq_false hne.1]
      · show Function.update (if _ then _ else _) _ _ = _
        rw [if_neg hne.2]

/-! ## A sequence of packets -/

theorem processAll_snoc (cfg : Config) (before : List Pkt) (pkt : Pkt) : processAll cfg (before ++ [pkt]) =
    ((processAll cfg before).1 ++ [(packetLossDetectionProcess cfg (processAll cfg before).2 pkt).1],
      (packetLossDetectionProcess cfg (processAll cfg before).2 pkt).2) := by
  unfold processAll
  rw [List.foldl_append]
  rfl

@[simp] theorem length_processAll (cfg : Config) (pkts : List Pkt) : (processAll cfg pkts).1.length = pkts.length := by
  induction pkts using List.reverseRecOn with
  | nil => rfl
  | append_singleton before pkt ih => rw [processAll_snoc, List.length_append, List.length_append, ih]; rfl

/-- The classes of the packets so far do not depend on the later ones. -/
theorem processAll_append (cfg : Config) (before after : List Pkt) :
    (processAll cfg before).1 <+: (processAll cfg (before ++ after)).1 := by
  induction after using List.reverseRecOn with
  | nil => rw [List.append_nil]
  | append_singleton after pkt ih =>
    rw [← List.append_assoc, processAll_snoc]
    exact ih.trans (List.prefix_append _ _)

theorem getElem?_processAll (cfg : Config) {before after : List Pkt} {n : Nat} (hn : n < before.length) :
    (processAll cfg (before ++ after)).1[n]? = (processAll cfg before).1[n]? := by
  obtain ⟨rest, hrest⟩ := processAll_append cfg before after
  rw [← hrest, List.getElem?_append_left (by simpa using hn)]

/-- The class of the packet behind `before`. -/
def classOf (cfg : Config) (before : List Pkt) (pkt : Pkt) : PlcType :=
  (packetLossDetectionProcess cfg (processAll cfg before).2 pkt).1

theorem getElem?_classOf (cfg : Config) (before : List Pkt) (pkt : Pkt) (after : List Pkt) :
    (processAll cfg (before ++ pkt :: after)).1[before.length]? = some (classOf cfg before pkt) := by
  rw [show before ++ pkt :: after = (before ++ [pkt]) ++ after by simp, getElem?_processAll cfg (by simp), processAll_snoc,
    List.getElem?_append_right (by simp)]
  simp [classOf]

/-- The state behind `before` and a packet. -/
theorem processed_snoc (cfg : Config) (before : List Pkt) (pkt : Pkt) :
    Processed cfg (processAll cfg before).2 pkt (classOf cfg before pkt) (processAll cfg (before ++ [pkt])).2 := by
  rw [processAll_snoc]
  exact processed cfg _ pkt

/-- The older one of the two stored packets. -/
theorem last_pkt_short (h : before.length < 2) : (processAll cfg before).2.last_pkt.1 = .replicate _ 0 := by
  match before, h with
  | [], _ => rfl
  | [a], _ => exact congrArg Prod.fst (processed_snoc cfg [] a).last_pkt

theorem last_pkt_two (earlier : List Pkt) (older last : Pkt) :
    (processAll cfg (earlier ++ [older, last])).2.last_pkt.1 = older := by
  rw [show earlier ++ [older, last] = (earlier ++ [older]) ++ [last] by simp, (processed_snoc ..).last_pkt,
    (processed_snoc ..).last_pkt]

/-- Behind a packet that is not mute the older stored verdict is that of the
packet before it; behind a mute one the later stored verdict is. -/
theorem flag_two (earlier : List Pkt) {older : Pkt} (last : Pkt) (ho : ¬ Mute cfg older) :
    (¬ Mute cfg last → (processAll cfg (earlier ++ [older, last])).2.prev_ble_sco_conflict_flag.2 =
      decide (classOf cfg earlier older = .bleConflict)) ∧
    (Mute cfg last → (processAll cfg (earlier ++ [older, last])).2.prev_ble_sco_conflict_flag.1 =
      decide (classOf cfg earlier older = .bleConflict)) := by
  have hfirst := (processed_snoc cfg earlier older).flag ho
  have hsnoc : earlier ++ [older, last] = (earlier ++ [older]) ++ [last] := by simp
  rw [hsnoc]
  constructor
  · intro hl
    rw [(processed_snoc ..).flag hl, hfirst]
  · intro hl
    rw [(processed_snoc ..).flag_mute hl, hfirst]

/-- The packet behind `before` is classified right exactly if it is aligned. -/
theorem detectedRight_iff (cfg : Config) (before : List Pkt) (pkt : Pkt) (after : List Pkt) :
    DetectedRight cfg (before ++ pkt :: after) before.length pkt ↔ Aligned cfg before pkt := by
  have hv := (processed_snoc cfg before pkt).verdict
  unfold DetectedRight Aligned
  rw [getElem?_classOf, Option.some_inj, hv]
  by_cases hm : Mute cfg pkt
  · simp [hm]
  simp only [hm, not_false_iff, true_and, false_or]
  rcases Nat.lt_or_ge before.length 2 with hlt | hge
  · -- there is no packet before the last
    rw [last_pkt_short hlt]
    have hflag : (processAll cfg before).2.prev_ble_sco_conflict_flag.2 = false := by
      match before, hlt with
      | [], _ => rfl
      | [a], _ =>
        by_cases ha : Mute cfg a
        · exact congrArg Prod.snd ((processed_snoc cfg [] a).flag_mute ha)
        · exact congrArg Prod.snd ((processed_snoc cfg [] a).flag ha)
    constructor
    · intro h
      refine ⟨fun _ hs => ?_, ?_⟩
      · obtain ⟨m, -, hn, -⟩ := h.1 ⟨hflag, hs⟩
        omega
      · rintro earlier older last rfl
        simp at hlt
    · rintro ⟨h, -⟩
      constructor
      · rintro ⟨-, hs⟩
        exact absurd hs (h hlt)
      · rintro ⟨m, -, hn, -⟩
        omega
  · obtain ⟨earlier, older, last, rfl⟩ : ∃ earlier older last, before = earlier ++ [older, last] := by
      rcases List.eq_nil_or_concat' before with rfl | ⟨rest, last, rfl⟩
      · simp at hge
      rcases List.eq_nil_or_concat' rest with rfl | ⟨earlier, older, rfl⟩
      · simp at hge
      exact ⟨earlier, older, last, by simp⟩
    rw [last_pkt_two]
    have hclaim : (∃ m o, (earlier ++ [older, last]).length = m + 2 ∧ (earlier ++ [older, last] ++ pkt :: after)[m]? = some o ∧
          Same o pkt ∧ (processAll cfg (earlier ++ [older, last] ++ pkt :: after)).1[m]? ≠ some .bleConflict) ↔
        Same older pkt ∧ classOf cfg earlier older ≠ .bleConflict := by
      have hget : (earlier ++ [older, last] ++ pkt :: after)[earlier.length]? = some older := by simp
      have hclass : (processAll cfg (earlier ++ [older, last] ++ pkt :: after)).1[earlier.length]? =
          some (classOf cfg earlier older) := by
        rw [show earlier ++ [older, last] ++ pkt :: after = earlier ++ older :: (last :: pkt :: after) by simp]
        exact getElem?_classOf ..
      constructor
      · rintro ⟨m, o, hn, ho, hs, hc⟩
        obtain rfl : m = earlier.length := by simp at hn; omega
        rw [hget] at ho
        rw [hclass] at hc
        cases ho
        exact ⟨hs, fun h => hc (congrArg some h)⟩
      · rintro ⟨hs, hc⟩
        refine ⟨earlier.length, older, by simp, hget, hs, ?_⟩
        rw [hclass]
        exact fun h => hc (Option.some.inj h)
    rw [hclaim]
    have haligned : ((earlier ++ [older, last]).length < 2 → ¬ Same (.replicate _ 0) pkt) ∧
        (∀ e o l, earlier ++ [older, last] = e ++ [o, l] → Mute cfg l → Same o pkt →
          (processAll cfg (earlier ++ [older, last])).2.prev_ble_sco_conflict_flag.1 =
            (processAll cfg (earlier ++ [older, last])).2.prev_ble_sco_conflict_flag.2) ↔
        (Mute cfg last → Same older pkt → (processAll cfg (earlier ++ [older, last])).2.prev_ble_sco_conflict_flag.1 =
            (processAll cfg (earlier ++ [older, last])).2.prev_ble_sco_conflict_flag.2) := by
      constructor
      · exact fun h => h.2 earlier older last rfl
      · refine fun h => ⟨fun hlt => absurd hlt (by simp), ?_⟩
        intro e o l he
        obtain ⟨-, hol⟩ := List.append_inj' he rfl
        cases hol
        exact h
    rw [haligned]
    by_cases hs : Same older pkt
    · have ho : ¬ Mute cfg older := fun ho => hm (ho.same hs)
      obtain ⟨hflag, hflagMute⟩ := flag_two earlier last ho
      by_cases hl : Mute cfg last
      · -- the later verdict is the one that counts, the code asks for the older one
        rw [hflagMute hl]
        cases (processAll cfg (earlier ++ [older, last])).2.prev_ble_sco_conflict_flag.2 <;> simp [hs, hl]
      · rw [hflag hl]
        simp [hs, hl]
    · simp [hs]

/-! ## The histogram -/

theorem hist_processAll (cfg : Config) (pkts : List Pkt) (t : PlcType) :
    (processAll cfg pkts).2.hist t = UInt32.ofNat ((processAll cfg pkts).1.count t) := by
  induction pkts using List.reverseRecOn with
  | nil => rfl
  | append_singleton before pkt ih =>
    rw [(processed_snoc cfg before pkt).hist, processAll_snoc]
    show _ = UInt32.ofNat ((_ ++ [classOf cfg before pkt]).count t)
    rw [List.count_append, List.count_singleton]
    by_cases ht : t = classOf cfg before pkt
    · subst ht
      rw [Function.update_self, ih]
      simp [UInt32.ofNat_add]
    · rw [Function.update_of_ne ht, ih]
      simp [Ne.symm ht]

theorem sum_count (types : List PlcType) : ∑ t, types.count t = types.length := by
  induction types with
  | nil => simp
  | cons a types ih =>
    simp only [List.count_cons, List.length_cons, Finset.sum_add_distrib, ih]
    simp

/-- The entries sum up to the number of packets until one of them comes round. -/
theorem sum_hist_iff (cfg : Config) (pkts : List Pkt) :
    ∑ t, ((processAll cfg pkts).2.hist t).toNat = pkts.length ↔ ∀ t, (processAll cfg pkts).1.count t < 2 ^ 32 := by
  have hle : ∀ t ∈ Finset.univ, ((processAll cfg pkts).2.hist t).toNat ≤ (processAll cfg pkts).1.count t := by
    intro t _
    rw [hist_processAll, UInt32.toNat_ofNat']
    exact Nat.mod_le ..
  rw [← length_processAll cfg pkts, ← sum_count, Finset.sum_eq_sum_iff_of_le hle]
  apply forall_congr'
  intro t
  rw [hist_processAll, UInt32.toNat_ofNat']
  simp only [Finset.mem_univ, true_implies]
  constructor
  · intro h
    rw [← h]
    exact Nat.mod_lt _ (by decide)
  · exact Nat.mod_eq_of_lt

/-- A packet is classified as a BLE conflict when it should be exactly if it is
aligned, and the entries of the histogram sum up to the number of packets exactly
if there are fewer than 2^32 of each class. -/
theorem detects_iff (cfg : Config) (pkts : List Pkt) :
    (∀ before pkt after, pkts = before ++ pkt :: after →
      (DetectedRight cfg pkts before.length pkt ↔ Aligned cfg before pkt)) ∧
    (∑ t, ((processAll cfg pkts).2.hist t).toNat = pkts.length ↔ ∀ t, (processAll cfg pkts).1.count t < 2 ^ 32) := by
  refine ⟨?_, sum_hist_iff cfg pkts⟩
  rintro before pkt after rfl
  exact detectedRight_iff cfg before pkt after

/-- A packet of equal bytes. -/
def plain (b : UInt8) : Pkt := .replicate _ b

/-- A chip that puts 0x55 for a lost packet. -/
def config55 : Config := ⟨0x55, false⟩

/-- A repeated packet with another one between. -/
theorem repeat_detected : DetectedRight config55 [plain 1, plain 2, plain 1] 2 (plain 1) ∧
    ∑ t, ((processAll config55 [plain 1, plain 2, plain 1]).2.hist t).toNat = 3 := by
  have h := detects_iff config55 [plain 1, plain 2, plain 1]
  refine ⟨(h.1 [plain 1, plain 2] (plain 1) [] rfl).2 (Or.inr ⟨fun hlt => absurd hlt (by decide), ?_⟩), h.2.2 ?_⟩
  · intro earlier older last he hl
    obtain ⟨_, hol⟩ : [] = earlier ∧ [plain 1, plain 2] = [older, last] := List.append_inj' he rfl
    cases hol
    exact absurd (hl 0 (by decide)) (by decide)
  · intro t
    have hlen : (processAll config55 [plain 1, plain 2, plain 1]).1.count t ≤ 3 := by
      rw [← show (processAll config55 [plain 1, plain 2, plain 1]).1.length = 3 from length_processAll ..]
      exact List.count_le_length
    omega

/-- Behind a mute packet a conflict is detected a second time. -/
theorem detected_twice :
    ¬ DetectedRight config55 [plain 1, plain 2, plain 1, plain 0x55, plain 1] 4 (plain 1) := by
  have hclasses : (processAll config55 [plain 1, plain 2, plain 1, plain 0x55, plain 1]).1 =
      [.headerError, .headerError, .bleConflict, .controllerMute, .bleConflict] := by
    decide +kernel
  unfold DetectedRight
  rw [hclasses]
  intro h
  obtain ⟨-, m, older, hn, -, -, hm⟩ := h.1 rfl
  obtain rfl : m = 2 := by omega
  exact hm rfl

end PlcUtils
