import Mathlib.Data.List.FinRange
import Mathlib.Logic.Function.Basic
/-!
# The repair of the peer's image

`services/app_ibrt/src/app_ibrt_ota_update.cpp` flags the sectors in which the
image of the peer differs, and `app_ibrt_ota_force_update` sends them again in
pieces, one for each response. `repaired_iff` says for which flags the repair
comes to its end.

The exchange is between a device whose `nv_role` is `IBRT_MASTER` and its peer;
commands and responses arrive as they are sent.
-/

namespace Ibrt.Ota

/-! ## The code -/

/-- `FLASH_SECTOR_SIZE_IN_BYTES`. -/
def flashSectorSizeInBytes : UInt32 := 4096

/-- `APP_TWS_CTRL_BUFFER_LEN`. -/
def appTwsCtrlBufferLen : UInt32 := 512

/-- `error_list`. -/
abbrev ErrorList := Fin 16 → BitVec 32

/-- `reset_error_list`. -/
def resetErrorList : ErrorList := fun _ => 0

/-- `set_error_list`. -/
def setErrorList (list : UInt16) (l : ErrorList) : ErrorList :=
  if h : list.toNat < 512 then
    Function.update l ⟨list.toNat / 32, by omega⟩ (l ⟨list.toNat / 32, by omega⟩ ||| BitVec.twoPow 32 (31 - list.toNat % 32))
  else l

/-- `clr_error_list`. -/
def clrErrorList (list : UInt16) (l : ErrorList) : ErrorList :=
  if h : list.toNat < 512 then
    Function.update l ⟨list.toNat / 32, by omega⟩ (l ⟨list.toNat / 32, by omega⟩ &&& ~~~ BitVec.twoPow 32 (31 - list.toNat % 32))
  else l

/-- `get_error_list`. -/
def getErrorList (l : ErrorList) : UInt32 :=
  let found := (List.finRange 16).findSome? fun i => (List.range 32).reverse.findSome? fun j =>
    if (l i).getLsbD j then some (UInt32.ofNat (i.val * 32 + 32 - j) * 0x1000) else none
  found.getD 0

/-- `ibrt_ota_update_cmd_t`; nothing sets `crc`. -/
structure UpdateCmd where
  address : UInt32
  length : UInt32
  number : UInt8
  point : UInt32
  buff : List UInt8
  deriving DecidableEq

/-- The error list and the static counter of `app_ibrt_ota_force_update`. -/
structure Master where
  errorList : ErrorList
  number : UInt8

/-- What the two devices have: `OTA_FLASH_ENTRY2_OFFSET`, and the flash that the
master reads. -/
structure Image where
  otaFlashEntry2Offset : UInt32
  flash : UInt32 → UInt8

variable (img : Image)

/-- `app_ibrt_ota_force_update`; `none` when it calls `app_ibrt_ota_update_immediately`. -/
def forceUpdate (m : Master) : Option (UpdateCmd × Master) :=
  let point := getErrorList m.errorList
  if point ≠ 0 then
    let address := img.otaFlashEntry2Offset + point + m.number.toUInt32 * appTwsCtrlBufferLen
    some
      ({ address := address
         length := appTwsCtrlBufferLen
         number := m.number % (flashSectorSizeInBytes / appTwsCtrlBufferLen).toUInt8
         point := point
         buff := (List.range appTwsCtrlBufferLen.toNat).map fun k => img.flash (address + UInt32.ofNat k) },
       { m with number := m.number + 1 })
  else none

/-- A call of `hal_norflash_erase` or `hal_norflash_write`. -/
inductive FlashOp where
  | erase (address len : UInt32)
  | write (address : UInt32) (buff : List UInt8)
  deriving DecidableEq

/-- `app_ibrt_update_section_handler` on the peer: the calls, and the `number`
and `point` of the response. -/
def updateSectionHandler (cmd : UpdateCmd) : List FlashOp × UInt8 × UInt32 :=
  let erased := if cmd.number = 0 then [.erase cmd.address flashSectorSizeInBytes] else []
  (erased ++ [.write cmd.address (cmd.buff.take cmd.length.toNat)], cmd.number, cmd.point)

/-- `app_ibrt_update_section_rsp_handler`, up to its call of `app_ibrt_ota_force_update`. -/
def updateSectionRspHandler (number : UInt8) (point : UInt32) (m : Master) : Master :=
  if number.toUInt32 = flashSectorSizeInBytes / appTwsCtrlBufferLen - 1 then
    { m with errorList := clrErrorList point.toUInt16 m.errorList }
  else m

/-- A command, the work of the peer, and its response; `none` when there is
nothing to send. -/
def exchange (m : Master) : Option (UpdateCmd × List FlashOp × Master) :=
  match forceUpdate img m with
  | none => none
  | some (cmd, m') =>
    let (ops, number, point) := updateSectionHandler cmd
    some (cmd, ops, updateSectionRspHandler number point m')

/-- A repair up to its first `rounds` exchanges: the commands, the calls of the
peer, and the master behind them. -/
def exchanges : Nat → Master → List UpdateCmd × List FlashOp × Master
  | 0, m => ([], [], m)
  | rounds + 1, m =>
    match exchange img m with
    | none => ([], [], m)
    | some (cmd, ops, m') =>
      let (cmds, ops', m'') := exchanges rounds m'
      (cmd :: cmds, ops ++ ops', m'')

/-! ## What a repair should do -/

/-- The sector `list` is flagged. -/
def Flagged (l : ErrorList) (list : Fin 512) : Prop := (l ⟨list / 32, by omega⟩).getLsbD (31 - list % 32) = true

instance (l : ErrorList) (list : Fin 512) : Decidable (Flagged l list) := inferInstanceAs (Decidable (_ = true))

/-- Where the sector `list` starts. -/
def sectorStart (list : Fin 512) : UInt32 := img.otaFlashEntry2Offset + UInt32.ofNat (list + 1) * flashSectorSizeInBytes

/-- The place of a piece of the sector, and its number. -/
def pieces (list : Fin 512) : List (UInt32 × Nat) :=
  (List.range 8).map fun k => (sectorStart img list + UInt32.ofNat k * appTwsCtrlBufferLen, k)

/-- The sector is erased, and its pieces are written. -/
def sectorOps (list : Fin 512) : List FlashOp :=
  .erase (sectorStart img list) flashSectorSizeInBytes :: (pieces img list).map fun p =>
    .write p.1 ((List.range 512).map fun k => img.flash (p.1 + UInt32.ofNat k))

/-- The flagged sectors, the first one first. -/
def flaggedSectors (l : ErrorList) : List (Fin 512) := (List.finRange 512).filter fun list => Flagged l list

/-- A repair ends with an empty list, its commands are the pieces of the flagged
sectors in order, and the peer does what they ask for and nothing else. -/
def Repaired (m : Master) : Prop :=
  ∃ rounds, exchange img (exchanges img rounds m).2.2 = none ∧
    (∀ list, ¬ Flagged (exchanges img rounds m).2.2.errorList list) ∧
    (exchanges img rounds m).1.map (fun cmd => (cmd.address, cmd.number.toNat)) =
      (flaggedSectors m.errorList).flatMap (pieces img) ∧
    (exchanges img rounds m).2.1 = (flaggedSectors m.errorList).flatMap (sectorOps img)

/-! ## The error list -/

variable {img} {l : ErrorList} {m m' : Master} {list : Fin 512} {cmd : UpdateCmd} {ops : List FlashOp}

/-- The word and the bit of a sector. -/
theorem flagged_iff {i : Fin 16} {j : Nat} (hj : j < 32) :
    Flagged l ⟨i * 32 + (31 - j), by omega⟩ ↔ (l i).getLsbD j = true := by
  unfold Flagged
  have hword : (⟨(i * 32 + (31 - j)) / 32, by omega⟩ : Fin 16) = i := Fin.ext (by simp only; omega)
  rw [hword, show 31 - (i * 32 + (31 - j)) % 32 = j by omega]

/-- What is found is a flagged sector, given by the place behind it. -/
theorem getErrorList_cases (l : ErrorList) : (getErrorList l = 0 ∧ ∀ list, ¬ Flagged l list) ∨
    ∃ list, Flagged l list ∧ getErrorList l = UInt32.ofNat (list + 1) * 0x1000 := by
  unfold getErrorList
  cases hf : (List.finRange 16).findSome? fun i => (List.range 32).reverse.findSome? fun j =>
      if (l i).getLsbD j then some (UInt32.ofNat (i.val * 32 + 32 - j) * 0x1000) else none with
  | none =>
    refine Or.inl ⟨rfl, ?_⟩
    intro list hlist
    rw [List.findSome?_eq_none_iff] at hf
    have hword := hf ⟨list / 32, by omega⟩ (List.mem_finRange _)
    rw [List.findSome?_eq_none_iff] at hword
    have hbit := hword (31 - list % 32) (by simp; omega)
    unfold Flagged at hlist
    rw [if_pos hlist] at hbit
    exact Option.some_ne_none _ hbit
  | some point =>
    right
    obtain ⟨i, -, hi⟩ := List.exists_of_findSome?_eq_some hf
    obtain ⟨j, hj, hij⟩ := List.exists_of_findSome?_eq_some hi
    have hj32 : j < 32 := by simpa using hj
    split_ifs at hij with hbit
    refine ⟨⟨i * 32 + (31 - j), by omega⟩, (flagged_iff hj32).2 hbit, ?_⟩
    rw [Option.getD_some, ← Option.some.inj hij]
    show _ = UInt32.ofNat (i * 32 + (31 - j) + 1) * 0x1000
    rw [show i.val * 32 + 32 - j = i * 32 + (31 - j) + 1 by omega]

theorem getErrorList_first (h : Flagged l 0) : getErrorList l = 0x1000 := by
  have hbit : (l 0).getLsbD 31 = true := h
  have hword : (List.range 32).reverse = 31 :: (List.range 31).reverse := rfl
  have hwords : List.finRange 16 = 0 :: (List.finRange 15).map Fin.succ := List.finRange_succ
  unfold getErrorList
  rw [hwords, hword]
  simp [hbit]

theorem point_ne_zero (list : Fin 512) : UInt32.ofNat (list + 1) * 0x1000 ≠ 0 := by
  intro h
  have hnat := congrArg UInt32.toNat h
  rw [UInt32.toNat_mul, UInt32.toNat_ofNat'] at hnat
  simp at hnat
  omega

theorem getErrorList_eq_zero : getErrorList l = 0 ↔ ∀ list, ¬ Flagged l list := by
  constructor
  · intro h0
    rcases getErrorList_cases l with h | ⟨list, -, h⟩
    · exact h.2
    · exact absurd (h.symm.trans h0) (point_ne_zero list)
  · intro hn
    rcases getErrorList_cases l with h | ⟨list, hlist, -⟩
    · exact h.1
    · exact absurd hlist (hn list)

/-- The place that comes back as the sector to clear clears none: all places are
too large for the list but the multiples of 64 KB, which clear the sector 0, and
that one is found first. -/
theorem clrErrorList_point (l : ErrorList) : clrErrorList (getErrorList l).toUInt16 l = l := by
  unfold clrErrorList
  split_ifs with h
  · have hzero : (getErrorList l).toUInt16.toNat = 0 := by
      rcases getErrorList_cases l with hl | ⟨list, -, hl⟩
      · rw [hl.1]
        rfl
      · rw [hl] at h ⊢
        rw [UInt32.toNat_toUInt16, UInt32.toNat_mul, UInt32.toNat_ofNat'] at h ⊢
        simp at h ⊢
        omega
    have hbit : (l 0).getLsbD 31 = false := by
      by_contra hb
      have hflag : Flagged l 0 := by simpa [Flagged] using hb
      rw [getErrorList_first hflag] at hzero
      exact absurd hzero (by decide)
    simp only [hzero]
    apply Function.update_eq_self_iff.2
    apply BitVec.eq_of_getLsbD_eq
    intro k hk
    rw [BitVec.getLsbD_and, BitVec.getLsbD_not, BitVec.getLsbD_twoPow]
    by_cases hk31 : 31 = k
    · subst hk31
      simpa using hbit
    · simp [hk, hk31]
  · rfl

/-! ## A repair -/

theorem updateSectionRspHandler_point (number : UInt8) :
    updateSectionRspHandler number (getErrorList m.errorList) m = m := by
  unfold updateSectionRspHandler
  split_ifs
  · rw [clrErrorList_point]
  · rfl

/-- With a flagged sector there is always a next command, and the list stays. -/
theorem exchange_some (img : Image) (h : Flagged m.errorList list) : ∃ cmd ops, exchange img m =
    some (cmd, ops, { m with number := m.number + 1 }) := by
  have hpoint : getErrorList m.errorList ≠ 0 := by
    intro h0
    exact getErrorList_eq_zero.1 h0 list h
  unfold exchange forceUpdate
  simp only [if_pos hpoint]
  refine ⟨_, _, congrArg some (Prod.ext rfl (Prod.ext rfl ?_))⟩
  exact updateSectionRspHandler_point (m := { m with number := m.number + 1 }) _

theorem exchange_none (h : ∀ list, ¬ Flagged m.errorList list) : exchange img m = none := by
  unfold exchange forceUpdate
  rw [if_neg (not_not.2 (getErrorList_eq_zero.2 h))]

/-- However long a repair goes on, the same sector is still flagged. -/
theorem exchanges_stuck (h : Flagged m.errorList list) (rounds : Nat) :
    (exchanges img rounds m).1.length = rounds ∧ (exchanges img rounds m).2.2.errorList = m.errorList := by
  induction rounds generalizing m with
  | zero => exact ⟨rfl, rfl⟩
  | succ rounds ih =>
    obtain ⟨cmd, ops, he⟩ := exchange_some img h
    have hrest := @ih { m with number := m.number + 1 } h
    simp only [exchanges, he, List.length_cons]
    exact ⟨by rw [hrest.1], hrest.2⟩

/-- A repair is what it should be exactly if there is nothing to repair, whatever
the repairs before it have left in the counter. -/
theorem repaired_iff (img : Image) (m : Master) : Repaired img m ↔ ∀ list, ¬ Flagged m.errorList list := by
  constructor
  · rintro ⟨rounds, -, hclear, -, -⟩ list hlist
    apply hclear list
    rw [(exchanges_stuck hlist rounds).2]
    exact hlist
  · intro h
    have hnone : flaggedSectors m.errorList = [] := by
      apply List.filter_eq_nil_iff.2
      intro list _
      simpa using h list
    refine ⟨0, exchange_none h, h, ?_, ?_⟩
    · rw [hnone]
      rfl
    · rw [hnone]
      rfl

/-- The image at 0x180000, of zeros. -/
def zeroImage : Image := ⟨0x180000, fun _ => 0⟩

/-- With the first sector flagged, the ninth command erases the sector behind it,
and there is still no end. -/
theorem next_sector_erased : ¬ Repaired zeroImage ⟨setErrorList 0 resetErrorList, 0⟩ ∧
    .erase (sectorStart zeroImage 1) flashSectorSizeInBytes ∈
      (exchanges zeroImage 9 ⟨setErrorList 0 resetErrorList, 0⟩).2.1 := by
  have hflag : Flagged (setErrorList 0 resetErrorList) 0 := by decide
  constructor
  · rintro ⟨rounds, -, hclear, -, -⟩
    apply hclear 0
    rw [(exchanges_stuck hflag rounds).2]
    exact hflag
  · decide +kernel

end Ibrt.Ota
