import Mathlib.Logic.Function.Basic
import Mathlib.Tactic.Common
import LittleBuddy.Lib.Runs
/-!
# The resume record of an upgrade

The records of `services/nv_section/userdata_section/nvrecord_ota.c`, one for
each device: the image that is coming in, and how far it came. A call with the
stage `ONGOING` stores the stage and the size. `version_stored_iff` says when the
version is stored as well.

As the targets are built, without `GSOUND_HOTWORD_ENABLED`. A `none` stands for a
failed `ASSERT`.
-/
open Runs

namespace NvRecord.Ota

/-- `MAX_VERSION_STRING_LEN`. -/
abbrev maxVersionStringLen : Nat := 16

/-- `NV_OTA_INFO_T`. -/
structure OtaInfo where
  imageSize : UInt32
  breakPoint : UInt32
  version : Vector UInt8 maxVersionStringLen
  versionLen : UInt8
  otaStatus : UInt8
  user : UInt8

/-- `OTA_STAGE_E`, as far as it is looked at. -/
abbrev otaStageIdle : UInt8 := 0
abbrev otaStageOngoing : UInt8 := 1
abbrev otaStageDone : UInt8 := 2

/-- A C string, without its terminator. -/
structure CString where
  chars : List UInt8
  noNul : 0 ∉ chars

/-- The string in memory. -/
def CString.bytes (s : CString) : List UInt8 := s.chars ++ [0]

/-- `nvrecord_rebuild_ota_info`. -/
def rebuildOtaInfo : Nat → OtaInfo := fun _ => ⟨0, 0, .replicate _ 0, 0, 0, 0⟩

/-- The bytes from `version` on; `behind` are those of the padding and of what
follows the record. -/
def OtaInfo.fromVersion (info : OtaInfo) (behind : Nat → UInt8) (i : Nat) : UInt8 :=
  if h : i < maxVersionStringLen then info.version[i]
  else if i = 16 then info.versionLen
  else if i = 17 then info.otaStatus
  else if i = 18 then info.user
  else behind i

/-- `!memcmp(pOta->version, session, strlen(session) + 1)`. -/
def OtaInfo.sessionEq (info : OtaInfo) (behind : Nat → UInt8) (session : CString) : Bool :=
  (List.range session.bytes.length).map (info.fromVersion behind) == session.bytes

/-- `if (c) { …; update = true; }`, on `update` and a record. -/
def changeIf (c : Prop) [Decidable c] (f : OtaInfo → OtaInfo) (s : Bool × OtaInfo) : Bool × OtaInfo :=
  if c then (true, f s.2) else s

/-- What `nv_record_ota_update_info` does first, for all stages. -/
def OtaInfo.startUpdate (info : OtaInfo) (behind : Nat → UInt8) (status : UInt8) (session : CString) : Bool × OtaInfo :=
  let s := (false, info)
  let s := changeIf (s.2.sessionEq behind session = true) (fun pOta => { pOta with version := .replicate _ 0 }) s
  changeIf (s.2.otaStatus ≠ status) (fun pOta => { pOta with otaStatus := status }) s

/-- `nv_record_ota_update_info`, with `update`, whether the section is flushed. -/
def updateInfo (behind : Nat → UInt8) (infos : Nat → OtaInfo) (deviceIndex : Nat) (status : UInt8)
    (totalImageSize : UInt32) (session : CString) : Option (Bool × (Nat → OtaInfo)) :=
  let s := (infos deviceIndex).startUpdate behind status session
  let stored : Option (Bool × OtaInfo) :=
    if status = otaStageIdle then
      some (changeIf (s.2.breakPoint ≠ 0) (fun pOta => { pOta with breakPoint := 0 }) s)
    else if status = otaStageOngoing then
      if totalImageSize = 0 then none
      else some (changeIf (s.2.imageSize ≠ totalImageSize) (fun pOta => { pOta with imageSize := totalImageSize }) s)
    else if status = otaStageDone then
      if totalImageSize ≠ s.2.imageSize then none
      else some (changeIf (totalImageSize ≠ s.2.breakPoint) (fun pOta => { pOta with breakPoint := totalImageSize }) s)
    else some s
  stored.map fun s => (s.1, Function.update infos deviceIndex s.2)

/-- `nv_record_ota_update_breakpoint`. -/
def updateBreakpoint (infos : Nat → OtaInfo) (user : UInt8) (deviceIndex : Nat) (otaOffset : UInt32) :
    Option (Bool × (Nat → OtaInfo)) :=
  let s := (false, infos deviceIndex)
  if s.2.otaStatus = otaStageOngoing then
    let s := changeIf (user ≠ s.2.user) (fun pOta => { pOta with user := user }) s
    let s := changeIf (otaOffset ≠ s.2.breakPoint) (fun pOta => { pOta with breakPoint := otaOffset }) s
    some (s.1, Function.update infos deviceIndex s.2)
  else none

/-- A call; that of `nv_record_ota_update_info` only traces its user. -/
inductive Call where
  | updateInfo (user : UInt8) (deviceIndex : Nat) (status : UInt8) (totalImageSize : UInt32) (session : CString)
  | updateBreakpoint (user : UInt8) (deviceIndex : Nat) (otaOffset : UInt32)

def Call.exec (behind : Nat → UInt8) : Call → (Nat → OtaInfo) → Option (Nat → OtaInfo)
  | updateInfo _ deviceIndex status totalImageSize session, infos =>
    (Ota.updateInfo behind infos deviceIndex status totalImageSize session).map Prod.snd
  | updateBreakpoint user deviceIndex otaOffset, infos =>
    (Ota.updateBreakpoint infos user deviceIndex otaOffset).map Prod.snd

/-- The record holds what the call was given. -/
structure OtaInfo.Stores (info : OtaInfo) (status : UInt8) (totalImageSize : UInt32) (session : CString) : Prop where
  status : info.otaStatus = status
  size : info.imageSize = totalImageSize
  version : session.bytes <+: info.version.toList

/-! ## The version -/

variable {behind : Nat → UInt8} {info : OtaInfo} {infos infos' : Nat → OtaInfo} {session : CString} {user : UInt8}
  {deviceIndex : Nat}

/-- A string that the record holds is the one that it compares equal with. -/
theorem sessionEq_of_beginning (h : session.bytes <+: info.version.toList) : info.sessionEq behind session = true := by
  have hlen := h.length_le
  rw [Vector.length_toList] at hlen
  unfold OtaInfo.sessionEq
  rw [beq_iff_eq]
  apply List.ext_getElem
  · simp
  · intro i h₁ h₂
    have hi : i < maxVersionStringLen := Nat.lt_of_lt_of_le h₂ hlen
    rw [List.getElem_map, List.getElem_range, OtaInfo.fromVersion, dif_pos hi, h.getElem h₂, Vector.getElem_toList]

theorem bytes_prefix_zero (session : CString) :
    session.bytes <+: (Vector.replicate maxVersionStringLen (0 : UInt8)).toList ↔ session.chars = [] := by
  constructor
  · intro h
    apply List.eq_nil_iff_forall_not_mem.2
    intro c hc
    have hmem : c ∈ (Vector.replicate maxVersionStringLen (0 : UInt8)).toList := h.subset (List.mem_append_left _ hc)
    rw [Vector.toList_replicate] at hmem
    exact session.noNul (List.eq_of_mem_replicate hmem ▸ hc)
  · intro h
    rw [CString.bytes, h, Vector.toList_replicate]
    exact ⟨List.replicate 15 0, rfl⟩

theorem sessionEq_empty (h : session.chars = []) : info.sessionEq behind session = true ↔ info.version[0] = 0 := by
  unfold OtaInfo.sessionEq CString.bytes
  rw [h]
  simp [OtaInfo.fromVersion]

/-- What a call leaves in the version. -/
def OtaInfo.keptVersion (info : OtaInfo) (behind : Nat → UInt8) (session : CString) : Vector UInt8 maxVersionStringLen :=
  if info.sessionEq behind session then .replicate _ 0 else info.version

theorem kept_stores_iff (behind : Nat → UInt8) :
    session.bytes <+: (info.keptVersion behind session).toList ↔ session.chars = [] ∧ info.version[0] = 0 := by
  unfold OtaInfo.keptVersion
  split
  · rename_i heq
    rw [bytes_prefix_zero]
    constructor
    · intro h
      exact ⟨h, (sessionEq_empty h).1 heq⟩
    · intro h
      exact h.1
  · rename_i hne
    constructor
    · intro h
      exact absurd (sessionEq_of_beginning h) hne
    · rintro ⟨hs, hv⟩
      exact absurd ((sessionEq_empty hs).2 hv) hne

/-! ## What a call does -/

/-- What a conditional change keeps when it is made, it keeps. -/
theorem changeIf_keeps {α : Type} (g : OtaInfo → α) {c : Prop} [Decidable c] {f : OtaInfo → OtaInfo} {s : Bool × OtaInfo}
    (h : g (f s.2) = g s.2) : g (changeIf c f s).2 = g s.2 := by
  unfold changeIf
  split
  · exact h
  · rfl

/-- A field that is set where it differs has the value afterwards. -/
theorem changeIf_sets {α : Type} [DecidableEq α] (g : OtaInfo → α) {x : α} {f : OtaInfo → OtaInfo} {s : Bool × OtaInfo}
    (h : g (f s.2) = x) : g (changeIf (g s.2 ≠ x) f s).2 = x := by
  unfold changeIf
  split
  · exact h
  · rename_i heq
    exact not_not.1 heq

theorem changeIf_assigns {α : Type} [DecidableEq α] (g : OtaInfo → α) {x : α} {f : OtaInfo → OtaInfo} {s : Bool × OtaInfo}
    (h : g (f s.2) = x) : g (changeIf (x ≠ g s.2) f s).2 = x := by
  unfold changeIf
  split
  · exact h
  · rename_i heq
    exact (not_not.1 heq).symm

theorem startUpdate_version (info : OtaInfo) (behind : Nat → UInt8) (session : CString) (status : UInt8) :
    (info.startUpdate behind status session).2.version = info.keptVersion behind session := by
  unfold OtaInfo.startUpdate
  rw [changeIf_keeps OtaInfo.version rfl]
  unfold changeIf OtaInfo.keptVersion
  split
  · rfl
  · rfl

theorem startUpdate_status (info : OtaInfo) (behind : Nat → UInt8) (session : CString) (status : UInt8) :
    (info.startUpdate behind status session).2.otaStatus = status :=
  changeIf_sets OtaInfo.otaStatus rfl

/-- A call of `nv_record_ota_update_info` changes the record of its device. -/
theorem updateInfo_spec {status : UInt8} {size : UInt32}
    (h : Call.exec behind (.updateInfo user deviceIndex status size session) infos = some infos') :
    (infos' deviceIndex).version = (infos deviceIndex).keptVersion behind session ∧
    (infos' deviceIndex).otaStatus = status ∧
    (status = otaStageOngoing → (infos' deviceIndex).imageSize = size) ∧
    ∀ i ≠ deviceIndex, infos' i = infos i := by
  obtain ⟨after, hcall, rfl⟩ := Option.map_eq_some_iff.1 h
  obtain ⟨stored, hstored, rfl⟩ := Option.map_eq_some_iff.1 hcall
  have hversion := startUpdate_version (infos deviceIndex) behind session status
  have hstatus := startUpdate_status (infos deviceIndex) behind session status
  have hother : ∀ i ≠ deviceIndex, Function.update infos deviceIndex stored.2 i = infos i :=
    fun i hi => Function.update_of_ne hi _ _
  simp only [Function.update_self]
  -- in no stage are the version and the stage written again
  split_ifs at hstored
  all_goals cases hstored
  · refine ⟨(changeIf_keeps OtaInfo.version rfl).trans hversion, (changeIf_keeps OtaInfo.otaStatus rfl).trans hstatus, ?_, hother⟩
    rintro rfl
    contradiction
  · exact ⟨(changeIf_keeps OtaInfo.version rfl).trans hversion, (changeIf_keeps OtaInfo.otaStatus rfl).trans hstatus,
      fun _ => changeIf_sets OtaInfo.imageSize rfl, hother⟩
  · refine ⟨(changeIf_keeps OtaInfo.version rfl).trans hversion, (changeIf_keeps OtaInfo.otaStatus rfl).trans hstatus, ?_, hother⟩
    intro hongoing
    contradiction
  · exact ⟨hversion, hstatus, fun hongoing => absurd hongoing (by assumption), hother⟩

theorem updateBreakpoint_spec {offset : UInt32}
    (h : Call.exec behind (.updateBreakpoint user deviceIndex offset) infos = some infos') (i : Nat) :
    (infos' i).version = (infos i).version := by
  obtain ⟨⟨update, after⟩, hcall, rfl⟩ := Option.map_eq_some_iff.1 h
  simp only [updateBreakpoint] at hcall
  split at hcall
  · cases hcall
    by_cases hi : i = deviceIndex
    · subst hi
      simp only [Function.update_self]
      rw [changeIf_keeps OtaInfo.version rfl, changeIf_keeps OtaInfo.version rfl]
    · simp only [Function.update_of_ne hi]
  · cases hcall

/-- What a call leaves in the breakpoint. -/
theorem updateInfo_breakPoint {status : UInt8} {size : UInt32} {update : Bool}
    (h : Ota.updateInfo behind infos deviceIndex status size session = some (update, infos')) (i : Nat) :
    (infos' i).breakPoint = (infos i).breakPoint ∨ (status = otaStageIdle ∧ (infos' i).breakPoint = 0) ∨
      (status = otaStageDone ∧ (infos' i).breakPoint = size) := by
  obtain ⟨stored, hstored, he⟩ := Option.map_eq_some_iff.1 h
  cases he
  by_cases hi : i = deviceIndex
  · subst hi
    rw [Function.update_self]
    have hstart : ((infos i).startUpdate behind status session).2.breakPoint = (infos i).breakPoint :=
      (changeIf_keeps OtaInfo.breakPoint rfl).trans (changeIf_keeps OtaInfo.breakPoint rfl)
    split_ifs at hstored with hidle hongoing hzero hdone
    all_goals cases hstored
    · exact .inr (.inl ⟨hidle, changeIf_sets OtaInfo.breakPoint rfl⟩)
    · exact .inl ((changeIf_keeps OtaInfo.breakPoint rfl).trans hstart)
    · exact .inr (.inr ⟨hdone, changeIf_assigns OtaInfo.breakPoint rfl⟩)
    · exact .inl hstart
  · exact .inl (congrArg OtaInfo.breakPoint (Function.update_of_ne hi _ _))

theorem updateBreakpoint_breakPoint {offset : UInt32} {update : Bool}
    (h : Ota.updateBreakpoint infos user deviceIndex offset = some (update, infos')) (i : Nat) :
    (infos' i).breakPoint = (infos i).breakPoint ∨ (infos' i).breakPoint = offset := by
  simp only [Ota.updateBreakpoint] at h
  split at h
  · cases h
    by_cases hi : i = deviceIndex
    · subst hi
      rw [Function.update_self]
      exact .inr (changeIf_assigns OtaInfo.breakPoint rfl)
    · exact .inl (congrArg OtaInfo.breakPoint (Function.update_of_ne hi _ _))
  · cases h

/-- A version that is empty stays so. -/
theorem exec_empty (call : Call) (h : call.exec behind infos = some infos') (hempty : ∀ i, (infos i).version[0] = 0) (i : Nat) :
    (infos' i).version[0] = 0 := by
  cases call with
  | updateBreakpoint user deviceIndex offset =>
    simp only [updateBreakpoint_spec h i]
    exact hempty i
  | updateInfo user deviceIndex status size session =>
    obtain ⟨hversion, -, -, hother⟩ := updateInfo_spec h
    by_cases hi : i = deviceIndex
    · subst hi
      simp only [hversion, OtaInfo.keptVersion]
      split
      · simp
      · exact hempty i
    · rw [hother i hi]
      exact hempty i

theorem run_empty {calls : List Call} (h : Run (Call.exec behind) (fun _ _ => True) (· = rebuildOtaInfo) infos calls) (i : Nat) :
    (infos i).version[0] = 0 := by
  refine h.inv (fun infos => ∀ i, (infos i).version[0] = 0) ?_ ?_ i
  · rintro _ rfl i
    simp [rebuildOtaInfo]
  · intro call infos infos' hempty _ hcall
    exact exec_empty call hcall hempty

/-- After any calls on any records, a call with the stage `ONGOING` leaves what it
was given in the record exactly if the string is empty and so is the version of
before: nothing copies the string, and a version that equals it is cleared. On
records that were rebuilt the version is always empty. -/
theorem version_stored_iff (behind : Nat → UInt8) (first infos infos' : Nat → OtaInfo) (calls : List Call)
    (hrun : Run (Call.exec behind) (fun _ _ => True) (· = first) infos calls) (user : UInt8) (deviceIndex : Nat)
    (totalImageSize : UInt32) (session : CString)
    (h : Call.exec behind (.updateInfo user deviceIndex otaStageOngoing totalImageSize session) infos = some infos') :
    ((infos' deviceIndex).Stores otaStageOngoing totalImageSize session ↔
      session.chars = [] ∧ (infos deviceIndex).version[0] = 0) ∧
    (first = rebuildOtaInfo → (infos deviceIndex).version[0] = 0) := by
  refine ⟨?_, ?_⟩
  · obtain ⟨hversion, hstatus, hsize, -⟩ := updateInfo_spec h
    rw [← kept_stores_iff behind, ← hversion]
    constructor
    · intro hs
      exact hs.version
    · intro hv
      exact ⟨hstatus, hsize rfl, hv⟩
  · rintro rfl
    exact run_empty hrun deviceIndex

/-- The empty version, behind a call with another one. -/
theorem version_stored_empty :
    ∃ infos infos', Run (Call.exec fun _ => 0) (fun _ _ => True) (· = rebuildOtaInfo) infos
        [.updateInfo 0 0 otaStageOngoing 8192 ⟨[97], by decide⟩] ∧
      Call.exec (fun _ => 0) (.updateInfo 0 0 otaStageOngoing 4096 ⟨[], by decide⟩) infos = some infos' ∧
      (infos' 0).Stores otaStageOngoing 4096 ⟨[], by decide⟩ := by
  obtain ⟨infos, hrun, hcall⟩ := exists_run_of_check (Call.exec fun _ => 0) (fun _ _ => True) (· = rebuildOtaInfo)
    (some rebuildOtaInfo) [.updateInfo 0 0 otaStageOngoing 8192 ⟨[97], by decide⟩]
    (fun infos => (Call.exec (fun _ => 0) (.updateInfo 0 0 otaStageOngoing 4096 ⟨[], by decide⟩) infos).isSome)
    (by rintro s ⟨⟩; rfl) (by decide)
  obtain ⟨infos', h⟩ := Option.isSome_iff_exists.1 hcall
  obtain ⟨hstores, hempty⟩ := version_stored_iff (fun _ => 0) _ _ _ _ hrun 0 0 4096 ⟨[], by decide⟩ h
  exact ⟨infos, infos', hrun, h, hstores.2 ⟨rfl, hempty rfl⟩⟩

/-- The image `a` of 8192 bytes comes in up to a breakpoint, and then the image
`b` of the same size: the record has the breakpoint of `a` and neither version. -/
theorem breakpoint_of_another :
    ∃ infos infos', Run (Call.exec fun _ => 0) (fun _ _ => True) (· = rebuildOtaInfo) infos
        [.updateInfo 0 0 otaStageOngoing 8192 ⟨[97], by decide⟩, .updateBreakpoint 0 0 4096] ∧
      Call.exec (fun _ => 0) (.updateInfo 0 0 otaStageOngoing 8192 ⟨[98], by decide⟩) infos = some infos' ∧
      (infos' 0).version.toList = List.replicate 16 0 ∧ (infos' 0).breakPoint = 4096 ∧
      ¬ (infos' 0).Stores otaStageOngoing 8192 ⟨[98], by decide⟩ := by
  obtain ⟨infos, hrun, hcall⟩ := exists_run_of_check (Call.exec fun _ => 0) (fun _ _ => True) (· = rebuildOtaInfo)
    (some rebuildOtaInfo) [.updateInfo 0 0 otaStageOngoing 8192 ⟨[97], by decide⟩, .updateBreakpoint 0 0 4096]
    (fun infos => (Call.exec (fun _ => 0) (.updateInfo 0 0 otaStageOngoing 8192 ⟨[98], by decide⟩) infos).any
      fun infos' => (infos' 0).version.toList == List.replicate 16 0 && (infos' 0).breakPoint == 4096)
    (by rintro s ⟨⟩; rfl) (by decide)
  obtain ⟨infos', h, hgood⟩ := (Option.any_eq_true ..).1 hcall
  rw [Bool.and_eq_true, beq_iff_eq, beq_iff_eq] at hgood
  refine ⟨infos, infos', hrun, h, hgood.1, hgood.2, fun hstores => ?_⟩
  have hprefix := hstores.version
  rw [hgood.1] at hprefix
  exact absurd hprefix (by decide)

end NvRecord.Ota
