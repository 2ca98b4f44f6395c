import LittleBuddy.Lib.Evict
import LittleBuddy.Lib.NorMem
import Mathlib.Data.List.Induction
import Mathlib.Data.List.Pairwise
/-!
# Room for hotword models

`nv_record_gsound_rec_get_hotword_model_addr` of
`services/nv_section/userdata_section/nvrecord_gsound.c`: the flash address of a
hotword model, or an address for a new one, for which older models are removed
from the table when they are in its way.

The model in entry 0 is part of the firmware, the others are in the section
`hotword_model`. `none` stands for an access outside of `modelInfo`.
-/
open NorMem

namespace NvRecord.Hotword

/-! ## The table -/

/-- `HOTWORD_MODLE_MAX_NUM`, `DEFAULT_MODEL_NUM`, `INVALID_MODEL_NUM`. -/
abbrev maxNum : Nat := 11
abbrev defaultModelNum : Nat := 1
abbrev invalidModelNum : Nat := 0xFF

/-- `HOTWORD_MODEL_INFO_T`. -/
structure ModelInfo where
  modelId : Vector UInt8 5
  startAddr : Nat
  len : Nat
deriving DecidableEq

/-- What the function uses of `NV_GSOUND_INFO_T`. -/
structure GsoundInfo where
  supportedModelCnt : Nat
  modelInfo : Vector ModelInfo maxNum

/-- `__hotword_model_start` and `__hotword_model_end`, as the linker script places
them: in whole sectors, in front of other sections of the flash. -/
structure Section where
  start : Nat
  stop : Nat
  le : start ≤ stop
  start_aligned : start % 4096 = 0
  stop_aligned : stop % 4096 = 0
  /-- `FLASH_NC_BASE` -/
  base : 0x38000000 ≤ start
  flash : stop < 0x38000000 + 2 ^ 24

/-- `F_4K_ALIGN`. -/
def align4K (v : Nat) : Nat := (v + 0xFFF) % 2 ^ 32 / 4096 * 4096

/-- Sums and differences of `uint32_t`. -/
def add (a b : Nat) : Nat := (a + b) % 2 ^ 32
def sub (a b : Nat) : Nat := (a + (2 ^ 32 - b % 2 ^ 32)) % 2 ^ 32

def ModelInfo.endAddr (m : ModelInfo) : Nat := add m.startAddr m.len

/-- The flash that a model occupies, up to the end of its last sector. -/
def ModelInfo.sectors (m : ModelInfo) : Nat := sub (align4K m.endAddr) m.startAddr

/-- `memcmp` of the first 4 bytes. -/
def ModelInfo.hasId (m : ModelInfo) (modelId : List UInt8) : Bool := m.modelId.toList.take 4 == modelId.take 4

/-- `for (i = i; ...; i++)` over `n` entries of the table. -/
def forModels {σ : Type} (f : σ → ModelInfo → Nat → σ) (table : Vector ModelInfo maxNum) : σ → Nat → Nat → Option σ
  | s, _, 0 => some s
  | s, i, n + 1 => table[i]?.bind fun m => forModels f table (f s m i) (i + 1) n

/-- `modelInfo[i] = modelInfo[i + 1]`, for `n` entries from `i` on. -/
def removeLoop (table : Vector ModelInfo maxNum) : Nat → Nat → Option (Vector ModelInfo maxNum)
  | _, 0 => some table
  | i, n + 1 => table[i + 1]?.bind fun m => if h : i < maxNum then removeLoop (table.set i m) (i + 1) n else none

/-- Removes the record `cleanIdx`, and decreases the number of supported models. -/
def GsoundInfo.remove (info : GsoundInfo) (cleanIdx : Nat) : Option GsoundInfo :=
  (removeLoop info.modelInfo cleanIdx (info.supportedModelCnt - 1 - cleanIdx)).map fun table =>
    { info with modelInfo := table, supportedModelCnt := (info.supportedModelCnt + 255) % 256 }

/-! ## The search -/

/-- The adjacent chunks. -/
structure Adjacent where
  headIdx : Nat := 0xFF
  tailIdx : Nat := 0xFF
  headOffset : Nat := 0xFFFFFFFF
  tailOffset : Nat := 0xFFFFFFFF

def Adjacent.visit (addr : Nat) (adj : Adjacent) (m : ModelInfo) (i : Nat) : Adjacent :=
  if m.startAddr > addr then
    if sub m.startAddr addr < adj.tailOffset then
      { adj with tailOffset := sub m.startAddr addr, tailIdx := i }
    else adj
  else if m.startAddr < addr then
    if sub addr m.startAddr < adj.headOffset then
      -- the difference is stored the other way round than it is compared
      { adj with headOffset := sub m.startAddr addr, headIdx := i }
    else adj
  else adj

/-- `while (cleanSize < newModelLen)`, for `fuel` rounds. -/
def cleanLoop (newModelLen : Nat) : Nat → GsoundInfo → Nat → Nat → Option (Nat × GsoundInfo)
  | 0, _, _, _ => none
  | fuel + 1, info, addr, cleanSize =>
    if cleanSize < newModelLen then do
      let adj ← forModels (Adjacent.visit addr) info.modelInfo {} defaultModelNum
        (info.supportedModelCnt - defaultModelNum)
      if adj.headIdx > adj.tailIdx then
        let m ← info.modelInfo[adj.tailIdx]?
        let info ← info.remove adj.tailIdx
        cleanLoop newModelLen fuel info addr (add cleanSize m.sectors)
      else
        let m ← info.modelInfo[adj.headIdx]?
        let info ← info.remove adj.headIdx
        cleanLoop newModelLen fuel info m.startAddr (add cleanSize m.sectors)
    else some (addr, info)

/-- The largest flash address. -/
def larger (addr : Nat) (m : ModelInfo) (_ : Nat) : Nat :=
  if m.endAddr % 2 ^ 24 > addr % 2 ^ 24 then m.endAddr else addr

variable (sec : Section)

/-- What follows the clean-up. -/
def finish (r : Nat × GsoundInfo) : Nat × GsoundInfo :=
  let (addr, info) :=
    if r.1 < sec.start ∨ r.1 > sec.stop then
      (sec.start, { r.2 with supportedModelCnt := defaultModelNum })
    else r
  (addr, if info.supportedModelCnt = 0 then { info with supportedModelCnt := invalidModelNum } else info)

/-- The address for a model that is not in the table. -/
def newAddr (fuel : Nat) (info : GsoundInfo) (newModelLen : Nat) : Option (Nat × GsoundInfo) :=
  if info.supportedModelCnt = invalidModelNum then some (sec.start, info)
  else do
    let addr ← forModels larger info.modelInfo sec.start defaultModelNum (info.supportedModelCnt - defaultModelNum)
    let addr := align4K addr
    if add newModelLen addr > sec.stop ∨ info.supportedModelCnt ≥ maxNum then
      let m ← info.modelInfo[defaultModelNum]?
      let info ← info.remove defaultModelNum
      let r ← cleanLoop newModelLen fuel info m.startAddr m.sectors
      some (finish sec r)
    else some (addr, info)

/-- `nv_record_gsound_rec_get_hotword_model_addr`. -/
def getHotwordModelAddr (fuel : Nat) (info : GsoundInfo) (modelId : List UInt8) (addNew : Bool) (newModelLen : Nat) :
    Option (Nat × GsoundInfo) :=
  match info.modelInfo.toList.find? (·.hasId modelId) with
  | some m => some (m.startAddr, info)
  | none => if addNew then newAddr sec fuel info newModelLen else some (0, info)

/-! ## What it promises -/

/-- The models in the section, the oldest one first. -/
def GsoundInfo.models (info : GsoundInfo) : List ModelInfo :=
  if info.supportedModelCnt = invalidModelNum then []
  else (info.modelInfo.toList.drop defaultModelNum).take (info.supportedModelCnt - defaultModelNum)

/-- No byte belongs to both models. -/
def Apart (m m' : ModelInfo) : Prop := ∀ x, InRange m.startAddr m.len x → ¬ InRange m'.startAddr m'.len x

/-- The stored models lie inside the section and do not overlap. -/
structure Stored (info : GsoundInfo) : Prop where
  cnt : info.supportedModelCnt ≤ maxNum ∨ info.supportedModelCnt = invalidModelNum
  inside : ∀ m ∈ info.models, sec.start ≤ m.startAddr ∧ m.startAddr + m.len ≤ sec.stop
  apart : info.models.Pairwise Apart

/-- `addr` is a place for the model: no other one is there. -/
structure Placed (info : GsoundInfo) (modelId : List UInt8) (newModelLen addr : Nat) : Prop where
  aligned : addr % 4096 = 0
  low : sec.start ≤ addr
  high : addr + newModelLen ≤ sec.stop
  free : ∀ m ∈ info.models, m.hasId modelId = false →
    ∀ x, InRange addr newModelLen x → ¬ InRange m.startAddr m.len x

/-- The search comes to an end within the table, and finds no address or a place. -/
def Sound (info : GsoundInfo) (modelId : List UInt8) (addNew : Bool) (newModelLen : Nat) : Prop :=
  ∃ fuel addr info', getHotwordModelAddr sec fuel info modelId addNew newModelLen = some (addr, info') ∧
    (addr ≠ 0 → Placed sec info' modelId newModelLen addr)

/-- The end of the models. -/
def largest (info : GsoundInfo) : Nat := (info.models.map ModelInfo.endAddr).foldl max sec.start

/-- There is no room behind the last model, or no entry left. -/
def Cleans (info : GsoundInfo) (newModelLen : Nat) : Prop :=
  sec.stop < newModelLen + align4K (largest sec info) ∨ maxNum ≤ info.supportedModelCnt

/-- The models to be removed are enough, the room for a first one is too, and an
id that is known has its place. -/
def Fits (info : GsoundInfo) (modelId : List UInt8) (addNew : Bool) (newModelLen : Nat) : Prop :=
  match info.modelInfo.toList.find? (·.hasId modelId) with
  | some m => m.startAddr ≠ 0 → Placed sec info modelId newModelLen m.startAddr
  | none => addNew →
    (info.supportedModelCnt = invalidModelNum → sec.start + newModelLen ≤ sec.stop) ∧
    (info.supportedModelCnt ≠ invalidModelNum → Cleans sec info newModelLen →
      newModelLen ≤ (info.models.map ModelInfo.sectors).sum)

/-- If models are removed, each one begins a sector, and none is left out on the
way down from the oldest one. -/
def Orderly (info : GsoundInfo) (modelId : List UInt8) (addNew : Bool) (newModelLen : Nat) : Prop :=
  info.modelInfo.toList.find? (·.hasId modelId) = none → addNew → info.supportedModelCnt ≠ invalidModelNum →
    Cleans sec info newModelLen → ∀ oldest others, info.models = oldest :: others →
      (∀ m ∈ info.models, m.startAddr % 4096 = 0 ∧ 0 < m.len) ∧
      ¬ Evict.Skips ModelInfo.startAddr ModelInfo.sectors ⟨others, oldest.startAddr, oldest.sectors⟩ newModelLen

/-- The next round of the loop removes `m`, as the adjacent chunk below `addr`. -/
def TakesHead (info : GsoundInfo) (addr : Nat) (m : ModelInfo) : Prop :=
  ∃ adj, forModels (Adjacent.visit addr) info.modelInfo {} defaultModelNum
      (info.supportedModelCnt - defaultModelNum) = some adj ∧
    ¬ adj.headIdx > adj.tailIdx ∧ info.modelInfo[adj.headIdx]? = some m

/-- After some rounds the loop takes a model below, and leaves out a model that
lies between that one and `addr`. -/
def LeavesOut (info : GsoundInfo) (newModelLen : Nat) : Prop :=
  ∃ rounds info' addr cleanSize, (∀ fuel, newAddr sec (fuel + rounds) info newModelLen =
      (cleanLoop newModelLen fuel info' addr cleanSize).map (finish sec)) ∧
    cleanSize < newModelLen ∧ ∃ m, TakesHead info' addr m ∧
      ∃ m' ∈ info'.models, m.startAddr < m'.startAddr ∧ m'.startAddr < addr

/-! ## Loops over the table -/

section Loops
variable {σ : Type} {f : σ → ModelInfo → Nat → σ} {table : Vector ModelInfo maxNum}

theorem getElem?_of_toList {p q : List ModelInfo} {m : ModelInfo} (h : table.toList = p ++ m :: q) :
    table[p.length]? = some m := by
  rw [← Vector.getElem?_toList, h, List.getElem?_append_right (Nat.le_refl _), Nat.sub_self, List.getElem?_cons_zero]

theorem forModels_eq {p l q : List ModelInfo} {s : σ} (h : table.toList = p ++ l ++ q) :
    forModels f table s p.length l.length = some ((l.zipIdx p.length).foldl (fun s x => f s x.1 x.2) s) := by
  induction l generalizing p s with
  | nil => rfl
  | cons m l ih =>
    rw [List.append_assoc, List.cons_append] at h
    have hnext := ih (p := p ++ [m]) (s := f s m p.length) (by rw [h]; simp)
    rw [List.length_append, List.length_singleton] at hnext
    simp only [List.length_cons, forModels, getElem?_of_toList h, Option.bind_some, hnext]
    rfl

theorem removeLoop_eq {p l q : List ModelInfo} {m : ModelInfo} (h : table.toList = p ++ m :: l ++ q) :
    ∃ table' q', removeLoop table p.length l.length = some table' ∧ table'.toList = p ++ l ++ q' := by
  induction l generalizing p m table with
  | nil => exact ⟨table, m :: q, rfl, by rw [h]; simp⟩
  | cons m' l ih =>
    have hlt : p.length < maxNum := by
      have hlen := congrArg List.length h
      simp only [Vector.length_toList, List.length_append, List.length_cons] at hlen
      omega
    have hread : table[p.length + 1]? = some m' := by
      have := getElem?_of_toList (p := p ++ [m]) (q := l ++ q) (m := m') (by rw [h]; simp)
      rwa [List.length_append, List.length_singleton] at this
    have hset : (table.set p.length m').toList = (p ++ [m']) ++ m' :: l ++ q := by
      rw [Vector.toList_set, h]
      simp
    obtain ⟨table', q', hloop, htable⟩ := ih hset
    rw [List.length_append, List.length_singleton] at hloop
    refine ⟨table', q', ?_, by rw [htable]; simp⟩
    simp only [List.length_cons, removeLoop, hread, Option.bind_some, dif_pos hlt, hloop]

end Loops

/-- The table begins with the model of the firmware and the models `l`. -/
def Listed (info : GsoundInfo) (l : List ModelInfo) : Prop :=
  ∃ e q, info.modelInfo.toList = [e] ++ l ++ q ∧ info.supportedModelCnt = l.length + 1

section Listed
variable {info : GsoundInfo} {l : List ModelInfo} (h : Listed info l)
include h

theorem Listed.length_lt : l.length < maxNum := by
  obtain ⟨e, q, htable, -⟩ := h
  have hlen := congrArg List.length htable
  simp only [Vector.length_toList, List.length_append, List.length_singleton] at hlen
  omega

theorem Listed.models : info.models = l := by
  have hlt := h.length_lt
  obtain ⟨e, q, htable, hcnt⟩ := h
  have hvalid : ¬ info.supportedModelCnt = invalidModelNum := by
    unfold invalidModelNum
    unfold maxNum at hlt
    omega
  rw [GsoundInfo.models, if_neg hvalid, htable, hcnt]
  simp

theorem Listed.forModels_eq {σ : Type} {f : σ → ModelInfo → Nat → σ} {s : σ} :
    forModels f info.modelInfo s defaultModelNum (info.supportedModelCnt - defaultModelNum) =
      some ((l.zipIdx 1).foldl (fun s x => f s x.1 x.2) s) := by
  obtain ⟨e, q, htable, hcnt⟩ := h
  have := Hotword.forModels_eq (f := f) (s := s) htable
  rwa [List.length_singleton, ← Nat.add_sub_cancel (n := l.length) (m := 1), ← hcnt] at this

theorem Listed.split {j : Nat} (hj : j < l.length) :
    ∃ e q, info.modelInfo.toList = ([e] ++ l.take j) ++ l[j] :: l.drop (j + 1) ++ q ∧
      info.supportedModelCnt = l.length + 1 := by
  obtain ⟨e, q, htable, hcnt⟩ := h
  refine ⟨e, q, ?_, hcnt⟩
  rw [htable, ← List.drop_eq_getElem_cons hj, List.append_assoc [e] (l.take j), List.take_append_drop]

theorem Listed.getElem? {j : Nat} (hj : j < l.length) : info.modelInfo[j + 1]? = some l[j] := by
  obtain ⟨e, q, htable, -⟩ := h.split hj
  have := getElem?_of_toList (p := [e] ++ l.take j) (m := l[j]) (q := l.drop (j + 1) ++ q)
    (htable.trans (List.append_assoc _ _ _))
  rwa [List.length_append, List.length_singleton, List.length_take, Nat.min_eq_left (Nat.le_of_lt hj),
    Nat.add_comm] at this

theorem Listed.remove {j : Nat} (hj : j < l.length) :
    ∃ info', info.remove (j + 1) = some info' ∧ Listed info' (l.eraseIdx j) := by
  have hlt := h.length_lt
  obtain ⟨e, q, htable, hcnt⟩ := h.split hj
  obtain ⟨table', q', hloop, htable'⟩ := removeLoop_eq htable
  rw [List.length_append, List.length_singleton, List.length_take, Nat.min_eq_left (Nat.le_of_lt hj), List.length_drop,
    Nat.add_comm 1] at hloop
  have hcount : info.supportedModelCnt - 1 - (j + 1) = l.length - (j + 1) := by rw [hcnt]; rfl
  refine ⟨⟨(info.supportedModelCnt + 255) % 256, table'⟩, ?_, e, q', ?_, ?_⟩
  · simp only [GsoundInfo.remove, hcount, hloop, Option.map_some]
  · rw [htable', List.eraseIdx_eq_take_drop_succ]
    simp
  · dsimp only
    rw [List.length_eraseIdx_of_lt hj, hcnt]
    unfold maxNum at hlt
    omega

end Listed

/-! ## The search for neighbours -/

section Scan
variable {addr : Nat}

/-- Every stored address is in the window of the flash. -/
def InFlash (a : Nat) : Prop := 0x38000000 ≤ a ∧ a < 0x38000000 + 2 ^ 24

theorem sub_eq {a b : Nat} (ha : InFlash a) (hb : InFlash b) (h : b ≤ a) : sub a b = a - b := by
  unfold sub InFlash at *
  omega

theorem sub_eq_neg {a b : Nat} (ha : InFlash a) (hb : InFlash b) (h : a < b) : sub a b = 2 ^ 32 - (b - a) := by
  unfold sub InFlash at *
  omega

/-- The search has found the last of the models below, or none. -/
def Head (addr : Nat) (l : List ModelInfo) (idx offset : Nat) : Prop :=
  idx = 0xFF ∧ offset = 0xFFFFFFFF ∧ (∀ m ∈ l, ¬ m.startAddr < addr) ∨
    ∃ j, ∃ _ : j < l.length, idx = j + 1 ∧ 2 ^ 31 ≤ offset ∧ l[j].startAddr < addr ∧
      ∀ k, ∀ _ : k < l.length, j < k → ¬ l[k].startAddr < addr

/-- The search has found the nearest of the models above, or none. -/
def Tail (addr : Nat) (l : List ModelInfo) (idx offset : Nat) : Prop :=
  idx = 0xFF ∧ offset = 0xFFFFFFFF ∧ (∀ m ∈ l, ¬ addr < m.startAddr) ∨
    ∃ j, ∃ _ : j < l.length, idx = j + 1 ∧ offset = l[j].startAddr - addr ∧ addr < l[j].startAddr ∧
      ∀ m ∈ l, addr < m.startAddr → l[j].startAddr ≤ m.startAddr

variable {l : List ModelInfo} {idx offset : Nat} {m : ModelInfo}

theorem Head.snoc_other (h : Head addr l idx offset) (hm : ¬ m.startAddr < addr) : Head addr (l ++ [m]) idx offset := by
  rcases h with ⟨hidx, hoffset, hnone⟩ | ⟨j, hj, hidx, hoffset, hbelow, hlast⟩
  · refine .inl ⟨hidx, hoffset, fun m' hm' => ?_⟩
    rcases List.mem_append.1 hm' with hm' | hm'
    · exact hnone m' hm'
    · rwa [List.mem_singleton.1 hm']
  · refine .inr ⟨j, by simp; omega, hidx, hoffset, by rwa [List.getElem_append_left hj], fun k hk hjk => ?_⟩
    rw [List.getElem_append]
    split
    · exact hlast k ‹_› hjk
    · rwa [List.getElem_singleton]

/-- The offset is stored as `m.startAddr - addr`, which is large: the next model
below takes the place of this one, however far away it is. -/
theorem Head.snoc_below (haddr : InFlash addr) (hm : InFlash m.startAddr) (hbelow : m.startAddr < addr) :
    Head addr (l ++ [m]) (l.length + 1) (sub m.startAddr addr) := by
  refine .inr ⟨l.length, by simp, rfl, ?_, by simpa using hbelow, fun k hk hlt => ?_⟩
  · rw [sub_eq_neg hm haddr hbelow]
    unfold InFlash at haddr hm
    omega
  · rw [List.length_append, List.length_singleton] at hk
    omega

theorem Head.far (h : Head addr l idx offset) : 2 ^ 31 ≤ offset := by
  rcases h with ⟨-, hoffset, -⟩ | ⟨j, hj, -, hoffset, -⟩ <;> omega

theorem Tail.snoc_other (h : Tail addr l idx offset) (hm : addr < m.startAddr → offset ≤ m.startAddr - addr)
    (hlt : m.startAddr - addr < 0xFFFFFFFF) : Tail addr (l ++ [m]) idx offset := by
  rcases h with ⟨hidx, hoffset, hnone⟩ | ⟨j, hj, hidx, hoffset, habove, hnear⟩
  · refine .inl ⟨hidx, hoffset, fun m' hm' => ?_⟩
    rcases List.mem_append.1 hm' with hm' | hm'
    · exact hnone m' hm'
    · rw [List.mem_singleton.1 hm']
      omega
  · refine .inr ⟨j, by simp; omega, hidx, ?_, ?_, fun m' hm' hlt => ?_⟩
    · rwa [List.getElem_append_left hj]
    · rwa [List.getElem_append_left hj]
    · rw [List.getElem_append_left hj]
      rcases List.mem_append.1 hm' with hm' | hm'
      · exact hnear m' hm' hlt
      · rw [List.mem_singleton.1 hm'] at hlt ⊢
        have := hm hlt
        omega

theorem Tail.snoc_above (h : Tail addr l idx offset) (habove : addr < m.startAddr) (hm : m.startAddr - addr < offset) :
    Tail addr (l ++ [m]) (l.length + 1) (m.startAddr - addr) := by
  have hlast : (l ++ [m])[l.length] = m := by simp
  refine .inr ⟨l.length, by simp, rfl, by rw [hlast], by rwa [hlast], fun m' hm' hlt => ?_⟩
  rw [hlast]
  rcases List.mem_append.1 hm' with hm' | hm'
  · rcases h with ⟨-, -, hnone⟩ | ⟨j, hj, -, hoffset, -, hnear⟩
    · exact absurd hlt (hnone m' hm')
    · have := hnear m' hm' hlt
      omega
  · rw [List.mem_singleton.1 hm']

/-- What the search has found in the models `l`. -/
structure Scanned (addr : Nat) (l : List ModelInfo) (adj : Adjacent) : Prop where
  head : Head addr l adj.headIdx adj.headOffset
  tail : Tail addr l adj.tailIdx adj.tailOffset

theorem Scanned.snoc {adj : Adjacent} (h : Scanned addr l adj) (haddr : InFlash addr) (hm : InFlash m.startAddr) :
    Scanned addr (l ++ [m]) (adj.visit addr m (l.length + 1)) := by
  have hnear : m.startAddr - addr < 0xFFFFFFFF := by
    unfold InFlash at haddr hm
    omega
  unfold Adjacent.visit
  by_cases habove : m.startAddr > addr
  · have hother := h.head.snoc_other (m := m) (Nat.lt_asymm habove)
    rw [if_pos habove, sub_eq hm haddr (Nat.le_of_lt habove)]
    split
    · exact ⟨hother, h.tail.snoc_above habove ‹_›⟩
    · exact ⟨hother, h.tail.snoc_other (fun _ => Nat.le_of_not_lt ‹_›) hnear⟩
  · have hother := h.tail.snoc_other (m := m) (fun hlt => absurd hlt habove) hnear
    rw [if_neg habove]
    by_cases hbelow : m.startAddr < addr
    · have hfar := h.head.far
      have hlt : sub addr m.startAddr < adj.headOffset := by
        rw [sub_eq haddr hm (Nat.le_of_lt hbelow)]
        unfold InFlash at haddr hm
        omega
      rw [if_pos hbelow, if_pos hlt]
      exact ⟨Head.snoc_below haddr hm hbelow, hother⟩
    · rw [if_neg hbelow]
      exact ⟨h.head.snoc_other hbelow, hother⟩

/-- What the search finds for a table with the models `l`. -/
def neighbours (addr : Nat) (l : List ModelInfo) : Adjacent :=
  (l.zipIdx 1).foldl (fun adj x => adj.visit addr x.1 x.2) {}

theorem Listed.neighbours_eq {info : GsoundInfo} (h : Listed info l) :
    forModels (Adjacent.visit addr) info.modelInfo {} defaultModelNum (info.supportedModelCnt - defaultModelNum) =
      some (neighbours addr l) := h.forModels_eq

theorem scanned (haddr : InFlash addr) (hl : ∀ m ∈ l, InFlash m.startAddr) : Scanned addr l (neighbours addr l) := by
  induction l using List.reverseRecOn with
  | nil => exact ⟨.inl ⟨rfl, rfl, by simp⟩, .inl ⟨rfl, rfl, by simp⟩⟩
  | append_singleton l m ih =>
    have hprev := ih fun m' hm' => hl m' (List.mem_append_left _ hm')
    have hstep := hprev.snoc haddr (hl m (by simp))
    rw [neighbours, List.zipIdx_append, List.foldl_append]
    rwa [Nat.add_comm] at hstep

end Scan

/-! ## The rounds of the loop -/

section Loop
variable {info : GsoundInfo} {l : List ModelInfo} {addr cleanSize newModelLen fuel j : Nat}

theorem add_sectors (hj : j < l.length) (hsum : cleanSize + (l.map ModelInfo.sectors).sum < 2 ^ 32) :
    add cleanSize l[j].sectors = cleanSize + l[j].sectors := by
  have hle : l[j].sectors ≤ (l.map ModelInfo.sectors).sum :=
    List.single_le_sum (fun _ _ => Nat.zero_le _) _ (List.mem_map_of_mem (List.getElem_mem hj))
  exact Nat.mod_eq_of_lt (by omega)

theorem cleanLoop_up (h : Listed info l) (hround : cleanSize < newModelLen)
    (hsum : cleanSize + (l.map ModelInfo.sectors).sum < 2 ^ 32) (hj : j < l.length)
    (htail : (neighbours addr l).tailIdx = j + 1) (hhead : (neighbours addr l).headIdx > (neighbours addr l).tailIdx) :
    ∃ info', Listed info' (l.eraseIdx j) ∧ ∀ fuel, cleanLoop newModelLen (fuel + 1) info addr cleanSize =
      cleanLoop newModelLen fuel info' addr (cleanSize + l[j].sectors) := by
  obtain ⟨info', hremove, hlisted⟩ := h.remove hj
  refine ⟨info', hlisted, fun fuel => ?_⟩
  have hread := h.getElem? hj
  rw [cleanLoop, if_pos hround, h.neighbours_eq]
  simp only [bind, Option.bind_some]
  rw [if_pos hhead, htail, hread, Option.bind_some, hremove, Option.bind_some, add_sectors hj hsum]

theorem cleanLoop_down (h : Listed info l) (hround : cleanSize < newModelLen)
    (hsum : cleanSize + (l.map ModelInfo.sectors).sum < 2 ^ 32) (hj : j < l.length)
    (hidx : (neighbours addr l).headIdx = j + 1)
    (hhead : ¬ (neighbours addr l).headIdx > (neighbours addr l).tailIdx) :
    ∃ info', Listed info' (l.eraseIdx j) ∧ TakesHead info addr l[j] ∧
      ∀ fuel, cleanLoop newModelLen (fuel + 1) info addr cleanSize =
        cleanLoop newModelLen fuel info' l[j].startAddr (cleanSize + l[j].sectors) := by
  obtain ⟨info', hremove, hlisted⟩ := h.remove hj
  refine ⟨info', hlisted, ⟨_, h.neighbours_eq, hhead, by rw [hidx, h.getElem? hj]⟩, fun fuel => ?_⟩
  have hread := h.getElem? hj
  rw [cleanLoop, if_pos hround, h.neighbours_eq]
  simp only [bind, Option.bind_some]
  rw [if_neg hhead, hidx, hread, Option.bind_some, hremove, Option.bind_some, add_sectors hj hsum]

/-- A round evicts a model, or reads an entry outside of the table. -/
theorem cleanLoop_step (h : Listed info l) (haddr : InFlash addr) (hl : ∀ m ∈ l, InFlash m.startAddr)
    (hround : cleanSize < newModelLen) (hsum : cleanSize + (l.map ModelInfo.sectors).sum < 2 ^ 32) :
    ((∀ fuel, cleanLoop newModelLen (fuel + 1) info addr cleanSize = none) ∧ ∀ m ∈ l, m.startAddr = addr) ∨
    ∃ w info', Evict.Step ModelInfo.startAddr ModelInfo.sectors ⟨l, addr, cleanSize⟩ w ∧ Listed info' w.spans ∧
      (w.base = addr ∨ ∃ m, TakesHead info addr m ∧ w.base = m.startAddr) ∧
      ∀ fuel, cleanLoop newModelLen (fuel + 1) info addr cleanSize =
        cleanLoop newModelLen fuel info' w.base w.room := by
  have hlt := h.length_lt
  unfold maxNum at hlt
  obtain ⟨hhead, htail⟩ := scanned haddr hl
  rcases htail with ⟨htail, -, hnone⟩ | ⟨k, hk, htail, -, habove, hnear⟩ <;>
    rcases hhead with ⟨hhead, -, hempty⟩ | ⟨j, hj, hhead, -, hbelow, hlast⟩
  · refine .inl ⟨fun fuel => ?_, fun m hm => ?_⟩
    · -- without neighbours the index of the head is read as it was initialised
      have hread : info.modelInfo[(255 : Nat)]? = none := Vector.getElem?_eq_none (by decide)
      rw [cleanLoop, if_pos hround, h.neighbours_eq]
      simp only [bind, Option.bind_some]
      rw [if_neg (by omega), hhead, hread, Option.bind_none]
    · have := hnone m hm
      have := hempty m hm
      omega
  · obtain ⟨info', hlisted, htakes, hloop⟩ := cleanLoop_down h hround hsum hj hhead (by omega)
    exact .inr ⟨_, info', .down hj hbelow hlast fun m hm hlt => absurd hlt (hnone m hm), hlisted, .inr ⟨_, htakes, rfl⟩,
      hloop⟩
  · obtain ⟨info', hlisted, hloop⟩ := cleanLoop_up h hround hsum hk htail (by omega)
    exact .inr ⟨_, info', .up hk habove hnear fun m hm hlt => absurd hlt (hempty m hm), hlisted, .inl rfl, hloop⟩
  · by_cases hhigher : (neighbours addr l).headIdx > (neighbours addr l).tailIdx
    · obtain ⟨info', hlisted, hloop⟩ := cleanLoop_up h hround hsum hk htail hhigher
      exact .inr ⟨_, info', .up hk habove hnear fun m _ _ => ⟨j, hj, by omega, hbelow⟩, hlisted, .inl rfl, hloop⟩
    · have hne : j ≠ k := by
        rintro rfl
        omega
      obtain ⟨info', hlisted, htakes, hloop⟩ := cleanLoop_down h hround hsum hj hhead hhigher
      have holder : ∀ m ∈ l, addr < m.startAddr → ∃ k, ∃ _ : k < l.length, j < k ∧ addr < l[k].startAddr ∧
          l[k].startAddr ≤ m.startAddr := fun m hm hlt => ⟨k, hk, by omega, habove, hnear m hm hlt⟩
      exact .inr ⟨_, info', .down hj hbelow hlast holder, hlisted, .inr ⟨_, htakes, rfl⟩, hloop⟩

theorem step_inFlash {w : Evict.Window ModelInfo} (hl : ∀ m ∈ l, InFlash m.startAddr) (haddr : InFlash addr)
    (hstep : Evict.Step ModelInfo.startAddr ModelInfo.sectors ⟨l, addr, cleanSize⟩ w) :
    InFlash w.base ∧ ∀ m ∈ w.spans, InFlash m.startAddr := by
  refine ⟨?_, fun m hm => hl m (hstep.subset m hm)⟩
  rcases hstep.base with hbase | ⟨m, hm, hbase⟩ <;> rw [hbase]
  · exact haddr
  · exact hl m hm

/-- The loop ends with an address only if there is enough to be removed. -/
theorem cleanLoop_enough {r : Nat × GsoundInfo} (h : Listed info l) (haddr : InFlash addr)
    (hl : ∀ m ∈ l, InFlash m.startAddr) (hsum : cleanSize + (l.map ModelInfo.sectors).sum < 2 ^ 32)
    (hrun : cleanLoop newModelLen fuel info addr cleanSize = some r) :
    newModelLen ≤ cleanSize + (l.map ModelInfo.sectors).sum := by
  induction fuel generalizing info l addr cleanSize with
  | zero => cases hrun
  | succ fuel ih =>
    by_cases hround : cleanSize < newModelLen
    · rcases cleanLoop_step h haddr hl hround hsum with ⟨hnone, -⟩ | ⟨w, info', hstep, hlisted, -, hloop⟩
      · rw [hnone] at hrun
        cases hrun
      · obtain ⟨hbase, hspans⟩ := step_inFlash hl haddr hstep
        have hkept := hstep.sum
        dsimp only at hkept
        rw [hloop] at hrun
        have := ih hlisted hbase hspans (by omega) hrun
        omega
    · omega

/-- With enough to be removed, and nothing left out on the way down, the loop
ends with a window that is free of the models left. -/
theorem cleanLoop_clear {stop : Nat} (h : Listed info l) (haddr : InFlash addr) (hl : ∀ m ∈ l, InFlash m.startAddr)
    (hsum : cleanSize + (l.map ModelInfo.sectors).sum < 2 ^ 32) (hfuel : l.length < fuel)
    (hlaid : Evict.Laid ModelInfo.startAddr ModelInfo.sectors stop l)
    (hclear : Evict.Clear ModelInfo.startAddr ModelInfo.sectors stop ⟨l, addr, cleanSize⟩)
    (hskips : ¬ Evict.Skips ModelInfo.startAddr ModelInfo.sectors ⟨l, addr, cleanSize⟩ newModelLen)
    (henough : newModelLen ≤ cleanSize + (l.map ModelInfo.sectors).sum) :
    ∃ w info', cleanLoop newModelLen fuel info addr cleanSize = some (w.base, info') ∧ Listed info' w.spans ∧
      (∀ m ∈ w.spans, m ∈ l) ∧ (w.base = addr ∨ ∃ m ∈ l, w.base = m.startAddr) ∧
      Evict.Clear ModelInfo.startAddr ModelInfo.sectors stop w ∧ newModelLen ≤ w.room := by
  induction fuel generalizing info l addr cleanSize with
  | zero => omega
  | succ fuel ih =>
    by_cases hround : cleanSize < newModelLen
    · rcases cleanLoop_step h haddr hl hround hsum with ⟨-, hall⟩ | ⟨w, info', hstep, hlisted, -, hloop⟩
      · -- the window is free, so no model begins at its base
        obtain rfl := List.eq_nil_iff_forall_not_mem.2 fun m hm => hclear.start_ne m hm (hall m hm)
        simp only [List.map_nil, List.sum_nil] at henough
        omega
      · obtain ⟨hbase, hspans⟩ := step_inFlash hl haddr hstep
        have hkept := hstep.sum
        have hshorter := hstep.length_lt
        dsimp only at hkept hshorter
        have hnext := hstep.next hlaid.nodup hskips hround
        obtain ⟨w', info'', hrun, hlisted', hsub, hbase', hclear', hroom⟩ :=
          ih hlisted hbase hspans (by omega) (by omega) (hstep.laid hlaid) (hstep.clear hlaid hclear hnext)
            (fun h => hskips ((hstep.skips_iff hlaid hclear.start_ne hnext).1 h)) (by omega)
        refine ⟨w', info'', (hloop fuel).trans hrun, hlisted', fun m hm => hstep.subset m (hsub m hm), ?_, hclear',
          hroom⟩
        rcases hbase' with hbase' | ⟨m, hm, hbase'⟩
        · rw [hbase']
          exact hstep.base
        · exact .inr ⟨m, hstep.subset m hm, hbase'⟩
    · refine ⟨⟨l, addr, cleanSize⟩, info, ?_, h, fun _ hm => hm, .inl rfl, hclear, Nat.le_of_not_lt hround⟩
      rw [cleanLoop, if_neg hround]

/-- Where spans are in the way as `Skips` says, the loop comes to leave out one. -/
theorem cleanLoop_leaves_out {stop : Nat} (h : Listed info l) (haddr : InFlash addr)
    (hl : ∀ m ∈ l, InFlash m.startAddr) (hsum : cleanSize + (l.map ModelInfo.sectors).sum < 2 ^ 32)
    (hlaid : Evict.Laid ModelInfo.startAddr ModelInfo.sectors stop l)
    (hclear : Evict.Clear ModelInfo.startAddr ModelInfo.sectors stop ⟨l, addr, cleanSize⟩)
    (hskips : Evict.Skips ModelInfo.startAddr ModelInfo.sectors ⟨l, addr, cleanSize⟩ newModelLen) :
    ∃ rounds info', ∃ w : Evict.Window ModelInfo, (∀ fuel, cleanLoop newModelLen (fuel + rounds) info addr cleanSize =
        cleanLoop newModelLen fuel info' w.base w.room) ∧ Listed info' w.spans ∧ w.room < newModelLen ∧
      ∃ m, TakesHead info' w.base m ∧ ∃ m' ∈ w.spans, m.startAddr < m'.startAddr ∧ m'.startAddr < w.base := by
  induction hn : l.length using Nat.strong_induction_on generalizing info l addr cleanSize with
  | _ n ih =>
    have hround : cleanSize < newModelLen := by
      obtain ⟨_, -, -, -, hlt⟩ := hskips
      dsimp only at hlt
      omega
    rcases cleanLoop_step h haddr hl hround hsum with ⟨-, hall⟩ | ⟨w, info', hstep, hlisted, htakes, hloop⟩
    · obtain ⟨m, hm, hbelow, -⟩ := hskips
      exact absurd (hall m hm) (Nat.ne_of_lt hbelow)
    · by_cases hnext : w.base < addr → ∀ m ∈ l, m.startAddr < addr → m.startAddr ≤ w.base
      · obtain ⟨hbase, hspans⟩ := step_inFlash hl haddr hstep
        have hkept := hstep.sum
        have hshorter := hstep.length_lt
        dsimp only at hkept hshorter
        obtain ⟨rounds, info'', w', hrun, hrest⟩ := ih w.spans.length (by omega) hlisted hbase hspans (by omega)
          (hstep.laid hlaid) (hstep.clear hlaid hclear hnext)
          ((hstep.skips_iff hlaid hclear.start_ne hnext).2 hskips) rfl
        exact ⟨rounds + 1, info'', w', fun fuel => (hloop (fuel + rounds)).trans (hrun fuel), hrest⟩
      · simp only [not_forall, Nat.not_le] at hnext
        obtain ⟨hlower, m', hm', hbelow, hover⟩ := hnext
        rcases htakes with htakes | ⟨m, htakes, hm⟩
        · exact absurd htakes (Nat.ne_of_lt hlower)
        · exact ⟨0, info, ⟨l, addr, cleanSize⟩, fun _ => rfl, h, hround, m, htakes, m', hm', hm ▸ hover, hbelow⟩

end Loop

/-! ## The section -/

section Stored
variable {sec : Section} {info : GsoundInfo} {m : ModelInfo} {modelId : List UInt8} {addNew : Bool} {newModelLen : Nat}

theorem align4K_spec {v : Nat} (h : v ≤ sec.stop) :
    v ≤ align4K v ∧ align4K v ≤ sec.stop ∧ align4K v % 4096 = 0 ∧ align4K v < v + 4096 := by
  have hstop := sec.stop_aligned
  have hflash := sec.flash
  unfold align4K
  omega

theorem align4K_of_aligned {v : Nat} (h : v ≤ sec.stop) (hv : v % 4096 = 0) : align4K v = v := by
  have := align4K_spec h
  omega

theorem inFlash_of {a : Nat} (h : sec.start ≤ a) (h' : a ≤ sec.stop) : InFlash a := by
  have hflash := sec.flash
  have hbase := sec.base
  unfold InFlash
  omega

theorem endAddr_eq (h : sec.start ≤ m.startAddr ∧ m.startAddr + m.len ≤ sec.stop) :
    m.endAddr = m.startAddr + m.len := by
  have hflash := sec.flash
  exact Nat.mod_eq_of_lt (by omega)

/-- The sectors of a model end with the first sector behind its bytes. -/
theorem sectors_spec (h : sec.start ≤ m.startAddr ∧ m.startAddr + m.len ≤ sec.stop) :
    m.startAddr + m.sectors = align4K (m.startAddr + m.len) := by
  have hspec := align4K_spec h.2
  have hflash := sec.flash
  unfold ModelInfo.sectors sub
  rw [endAddr_eq h]
  omega

theorem Stored.listed (h : Stored sec info) (hcnt : info.supportedModelCnt ≠ invalidModelNum)
    (hpos : 0 < info.supportedModelCnt) : Listed info info.models := by
  have hle : info.supportedModelCnt ≤ 11 := h.cnt.resolve_right hcnt
  have hlen : info.modelInfo.toList.length = maxNum := Vector.length_toList
  rw [GsoundInfo.models, if_neg hcnt]
  obtain ⟨e, t, htable⟩ := List.exists_cons_of_length_pos (l := info.modelInfo.toList) (by rw [hlen]; decide)
  rw [htable] at hlen ⊢
  simp only [List.length_cons] at hlen
  refine ⟨e, t.drop (info.supportedModelCnt - 1), ?_, ?_⟩
  · rw [htable]
    simp
  · rw [List.drop_succ_cons, List.drop_zero, List.length_take]
    change t.length + 1 = 11 at hlen
    change info.supportedModelCnt = min (info.supportedModelCnt - 1) t.length + 1
    omega

theorem Stored.inFlash (h : Stored sec info) : ∀ m ∈ info.models, InFlash m.startAddr :=
  fun m hm => inFlash_of (h.inside m hm).1 (Nat.le_trans (Nat.le_add_right _ _) (h.inside m hm).2)

theorem Stored.models_ne_nil (h : Stored sec info) (hfull : maxNum ≤ info.supportedModelCnt)
    (hcnt : info.supportedModelCnt ≠ invalidModelNum) : info.models ≠ [] := by
  intro hnil
  obtain ⟨-, -, -, hlen⟩ := h.listed hcnt (Nat.lt_of_lt_of_le (by decide) hfull)
  rw [hnil] at hlen
  rw [hlen] at hfull
  exact absurd hfull (by decide)

instance : Std.Symm Apart where
  symm _ _ h x hx hx' := h x hx' hx

theorem not_apart_self (hlen : 0 < m.len) : ¬ Apart m m :=
  fun h => h m.startAddr ⟨Nat.le_refl _, by omega⟩ ⟨Nat.le_refl _, by omega⟩

theorem apart_of_le {m' : ModelInfo} (h : m.startAddr + m.len ≤ m'.startAddr ∨ m'.startAddr + m'.len ≤ m.startAddr) :
    Apart m m' := by
  rintro x ⟨hx, hxl⟩ ⟨hx', hxl'⟩
  omega

theorem apart_iff {m' : ModelInfo} (hlen : 0 < m.len) (hlen' : 0 < m'.len) :
    Apart m m' ↔ m.startAddr + m.len ≤ m'.startAddr ∨ m'.startAddr + m'.len ≤ m.startAddr := by
  constructor
  · intro h
    by_contra hover
    -- otherwise the higher of the two first bytes belongs to both
    exact h (max m.startAddr m'.startAddr) ⟨by omega, by omega⟩ ⟨by omega, by omega⟩
  · exact apart_of_le

/-- Whole sectors keep what bytes keep apart. -/
theorem Stored.laid (h : Stored sec info) (hsectors : ∀ m ∈ info.models, m.startAddr % 4096 = 0 ∧ 0 < m.len) :
    Evict.Laid ModelInfo.startAddr ModelInfo.sectors sec.stop info.models := by
  have hspan : ∀ m ∈ info.models, m.startAddr + m.len ≤ m.startAddr + m.sectors ∧
      m.startAddr + m.sectors ≤ sec.stop ∧ (m.startAddr + m.sectors) % 4096 = 0 ∧
      m.startAddr + m.sectors < m.startAddr + m.len + 4096 := by
    intro m hm
    rw [sectors_spec (h.inside m hm)]
    exact align4K_spec (h.inside m hm).2
  refine ⟨?_, fun m hm m' hm' hne => ?_, fun m hm => ?_, fun m hm => (hspan m hm).2.1⟩
  · refine h.apart.imp_of_mem fun {m m'} hm _ hfree => ?_
    rintro rfl
    exact not_apart_self (hsectors m hm).2 hfree
  · have hfree := h.apart.forall hm hm' hne
    have hm := And.intro (hspan m hm) (hsectors m hm)
    have hm' := And.intro (hspan m' hm') (hsectors m' hm')
    rcases apart_iff hm.2.2 hm'.2.2 |>.1 hfree with hle | hle <;> omega
  · have := hspan m hm
    have := (hsectors m hm).2
    omega

theorem clear_oldest {stop : Nat} {oldest : ModelInfo} {others : List ModelInfo}
    (h : Evict.Laid ModelInfo.startAddr ModelInfo.sectors stop (oldest :: others)) :
    Evict.Clear ModelInfo.startAddr ModelInfo.sectors stop ⟨others, oldest.startAddr, oldest.sectors⟩ := by
  have hpos := h.pos oldest (by simp)
  have hne : ∀ m ∈ others, m ≠ oldest := by
    rintro m hm rfl
    exact (List.nodup_cons.1 h.nodup).1 hm
  refine ⟨fun m hm hlt => ?_, fun m hm hge => ?_, hpos, h.inside oldest (by simp)⟩
  all_goals
    have hmpos := h.pos m (List.mem_cons_of_mem _ hm)
    dsimp only at *
    rcases h.apart m (List.mem_cons_of_mem _ hm) oldest (by simp) (hne m hm) with hle | hle <;> omega

/-- The bytes from the base of a clear window on are free. -/
theorem Placed.of_clear {w : Evict.Window ModelInfo} (hinside : ∀ m ∈ w.spans, sec.start ≤ m.startAddr ∧
    m.startAddr + m.len ≤ sec.stop) (hclear : Evict.Clear ModelInfo.startAddr ModelInfo.sectors sec.stop w)
    (hmodels : info.models = w.spans) (haligned : w.base % 4096 = 0) (hlow : sec.start ≤ w.base)
    (hroom : newModelLen ≤ w.room) : Placed sec info modelId newModelLen w.base where
  aligned := haligned
  low := hlow
  high := Nat.le_trans (Nat.add_le_add_left hroom _) hclear.top
  free := by
    rw [hmodels]
    rintro m hm - x ⟨hx, hxl⟩ ⟨hmx, hmxl⟩
    have hend : m.startAddr + m.len ≤ m.startAddr + m.sectors := by
      rw [sectors_spec (hinside m hm)]
      exact (align4K_spec (hinside m hm).2).1
    by_cases hlt : m.startAddr < w.base
    · have := hclear.low m hm hlt
      omega
    · have := hclear.high m hm hlt
      omega

/-! ## The room behind the last model -/

theorem le_foldl_max {l : List ModelInfo} {a : Nat} : a ≤ (l.map ModelInfo.endAddr).foldl max a := by
  induction l generalizing a with
  | nil => exact Nat.le_refl _
  | cons m l ih => exact Nat.le_trans (Nat.le_max_left _ _) ih

theorem endAddr_le_foldl_max {l : List ModelInfo} {a : Nat} (hm : m ∈ l) :
    m.endAddr ≤ (l.map ModelInfo.endAddr).foldl max a := by
  induction l generalizing a with
  | nil => cases hm
  | cons m' l ih =>
    rcases List.mem_cons.1 hm with rfl | hm
    · exact Nat.le_trans (Nat.le_max_right _ _) le_foldl_max
    · exact ih hm

theorem foldl_max_le {l : List ModelInfo} {a b : Nat} (ha : a ≤ b) (hl : ∀ m ∈ l, m.endAddr ≤ b) :
    (l.map ModelInfo.endAddr).foldl max a ≤ b := by
  induction l generalizing a with
  | nil => exact ha
  | cons m l ih => exact ih (Nat.max_le.2 ⟨ha, hl m (by simp)⟩) fun m' hm' => hl m' (List.mem_cons_of_mem _ hm')

/-- Within the flash, the low 24 bits compare as the addresses do. -/
theorem larger_foldl {l : List ModelInfo} {a i : Nat} (ha : InFlash a) (hl : ∀ m ∈ l, InFlash m.endAddr) :
    (l.zipIdx i).foldl (fun s x => larger s x.1 x.2) a = (l.map ModelInfo.endAddr).foldl max a := by
  induction l generalizing a i with
  | nil => rfl
  | cons m l ih =>
    have hm := hl m (by simp)
    have hstep : larger a m i = max a m.endAddr := by
      unfold larger
      unfold InFlash at ha hm
      split <;> omega
    have hmax : InFlash (max a m.endAddr) := by
      unfold InFlash at *
      omega
    rw [List.zipIdx_cons, List.foldl_cons, hstep, ih hmax fun m' hm' => hl m' (List.mem_cons_of_mem _ hm')]
    rfl

theorem Stored.forModels_larger (h : Stored sec info) (hcnt : info.supportedModelCnt ≠ invalidModelNum) :
    forModels larger info.modelInfo sec.start defaultModelNum (info.supportedModelCnt - defaultModelNum) =
      some (largest sec info) := by
  have hstart := inFlash_of (Nat.le_refl sec.start) sec.le
  rcases Nat.eq_zero_or_pos info.supportedModelCnt with hzero | hpos
  · rw [largest, GsoundInfo.models, if_neg hcnt, hzero]
    rfl
  · rw [(h.listed hcnt hpos).forModels_eq, larger_foldl hstart]
    · rfl
    · intro m hm
      have hin := h.inside m hm
      rw [endAddr_eq hin]
      exact inFlash_of (by omega) hin.2

theorem Stored.largest_le (h : Stored sec info) : largest sec info ≤ sec.stop := by
  refine foldl_max_le sec.le fun m hm => ?_
  rw [endAddr_eq (h.inside m hm)]
  exact (h.inside m hm).2

theorem Stored.placed_behind (h : Stored sec info) (hroom : newModelLen + align4K (largest sec info) ≤ sec.stop) :
    Placed sec info modelId newModelLen (align4K (largest sec info)) := by
  obtain ⟨hle, -, haligned, -⟩ := align4K_spec h.largest_le
  refine ⟨haligned, Nat.le_trans le_foldl_max hle, by omega, ?_⟩
  rintro m hm - x ⟨hx, -⟩ ⟨-, hmx⟩
  have hend : m.endAddr ≤ largest sec info := endAddr_le_foldl_max hm
  rw [endAddr_eq (h.inside m hm)] at hend
  omega

/-! ## The address for a new model -/

theorem Stored.newAddr_eq (h : Stored sec info) (hcnt : info.supportedModelCnt ≠ invalidModelNum)
    (hlen : newModelLen < 2 ^ 31) (fuel : Nat) :
    (Cleans sec info newModelLen → newAddr sec fuel info newModelLen = (do
      let m ← info.modelInfo[defaultModelNum]?
      let info ← info.remove defaultModelNum
      let r ← cleanLoop newModelLen fuel info m.startAddr m.sectors
      some (finish sec r))) ∧
    (¬ Cleans sec info newModelLen → newAddr sec fuel info newModelLen = some (align4K (largest sec info), info)) := by
  have hflash := sec.flash
  obtain ⟨-, hle, -⟩ := align4K_spec h.largest_le
  have hadd : add newModelLen (align4K (largest sec info)) = newModelLen + align4K (largest sec info) :=
    Nat.mod_eq_of_lt (by omega)
  rw [newAddr, if_neg hcnt, h.forModels_larger hcnt]
  simp only [bind, Option.bind_some]
  rw [hadd]
  exact ⟨fun hclean => if_pos hclean, fun hclean => if_neg hclean⟩

theorem finish_low (sec : Section) (r : Nat × GsoundInfo) : sec.start ≤ (finish sec r).1 := by
  unfold finish
  dsimp only
  split
  · exact Nat.le_refl _
  · omega

theorem finish_eq {l : List ModelInfo} {addr : Nat} (h : Listed info l) (hlow : sec.start ≤ addr)
    (hhigh : addr ≤ sec.stop) : finish sec (addr, info) = (addr, info) := by
  obtain ⟨-, -, -, hcnt⟩ := h
  unfold finish
  rw [if_neg (by dsimp only; omega)]
  dsimp only
  rw [if_neg (by omega)]

theorem Stored.sum_lt (h : Stored sec info) : (info.models.map ModelInfo.sectors).sum < 2 ^ 32 := by
  have hlen : info.models.length ≤ maxNum := by
    rw [GsoundInfo.models]
    split
    · exact Nat.zero_le _
    · refine Nat.le_trans (List.length_take_le' _ _) (Nat.le_trans (List.length_drop ▸ Nat.sub_le _ _) ?_)
      exact Nat.le_of_eq Vector.length_toList
  have hle : (info.models.map ModelInfo.sectors).sum ≤ info.models.length * 2 ^ 24 := by
    refine (List.sum_le_card_nsmul (info.models.map ModelInfo.sectors) (2 ^ 24) ?_).trans (by simp)
    intro n hn
    obtain ⟨m, hm, rfl⟩ := List.mem_map.1 hn
    have hspec := sectors_spec (h.inside m hm)
    have := align4K_spec (h.inside m hm).2
    have := (h.inside m hm).1
    have := sec.flash
    have := sec.base
    omega
  exact Nat.lt_of_le_of_lt (Nat.le_trans hle (Nat.mul_le_mul_right _ hlen)) (by decide)

/-- With models in the section, the oldest one is where the loop begins. -/
theorem Stored.clean_eq (h : Stored sec info) (hcnt : info.supportedModelCnt ≠ invalidModelNum)
    (hlen : newModelLen < 2 ^ 31) (hclean : Cleans sec info newModelLen) {oldest : ModelInfo} {others : List ModelInfo}
    (hmodels : info.models = oldest :: others) :
    ∃ info', Listed info' others ∧ InFlash oldest.startAddr ∧ (∀ m ∈ others, InFlash m.startAddr) ∧
      oldest.sectors + (others.map ModelInfo.sectors).sum < 2 ^ 32 ∧
      ∀ fuel, newAddr sec fuel info newModelLen =
        (cleanLoop newModelLen fuel info' oldest.startAddr oldest.sectors).map (finish sec) := by
  have hflash := h.inFlash
  have hsum := h.sum_lt
  rw [hmodels] at hflash hsum
  rw [List.map_cons, List.sum_cons] at hsum
  have hpos : 0 < info.supportedModelCnt := by
    refine Nat.pos_of_ne_zero fun hzero => ?_
    rw [GsoundInfo.models, if_neg hcnt, hzero] at hmodels
    cases hmodels
  have hlisted := h.listed hcnt hpos
  rw [hmodels] at hlisted
  obtain ⟨info', hremove, hlisted'⟩ := hlisted.remove (j := 0) (by simp)
  have hread := hlisted.getElem? (j := 0) (by simp)
  refine ⟨info', hlisted', hflash oldest (by simp), fun m hm => hflash m (List.mem_cons_of_mem _ hm), hsum,
    fun fuel => ?_⟩
  rw [(h.newAddr_eq hcnt hlen fuel).1 hclean]
  change (info.modelInfo[0 + 1]?.bind fun m => (info.remove (0 + 1)).bind fun info =>
    (cleanLoop newModelLen fuel info m.startAddr m.sectors).bind fun r => some (finish sec r)) = _
  rw [hread, Option.bind_some, hremove, Option.bind_some]
  change (cleanLoop newModelLen fuel info' oldest.startAddr oldest.sectors).bind (fun r => some (finish sec r)) = _
  cases cleanLoop newModelLen fuel info' oldest.startAddr oldest.sectors <;> rfl

/-- What the loop removes is enough, and the place it finds is free. -/
theorem Stored.clean_placed (modelId : List UInt8) (h : Stored sec info)
    (hcnt : info.supportedModelCnt ≠ invalidModelNum) (hlen : newModelLen < 2 ^ 31)
    (hclean : Cleans sec info newModelLen) {oldest : ModelInfo} {others : List ModelInfo}
    (hmodels : info.models = oldest :: others)
    (hsectors : ∀ m ∈ info.models, m.startAddr % 4096 = 0 ∧ 0 < m.len)
    (hskips : ¬ Evict.Skips ModelInfo.startAddr ModelInfo.sectors ⟨others, oldest.startAddr, oldest.sectors⟩
      newModelLen)
    (henough : newModelLen ≤ (info.models.map ModelInfo.sectors).sum) :
    ∃ fuel addr info', newAddr sec fuel info newModelLen = some (addr, info') ∧
      Placed sec info' modelId newModelLen addr := by
  obtain ⟨info', hlisted, hfirst, hothers, hsum, heq⟩ := h.clean_eq hcnt hlen hclean hmodels
  have hlaid := h.laid hsectors
  have hinside := h.inside
  rw [hmodels] at hlaid henough hinside hsectors
  rw [List.map_cons, List.sum_cons] at henough
  obtain ⟨w, info'', hrun, hlisted', hsub, hbase, hclear, hroom⟩ := cleanLoop_clear hlisted hfirst hothers hsum
    (Nat.lt_succ_self _) (hlaid.sublist (List.sublist_cons_self _ _)) (clear_oldest hlaid) hskips henough
  -- the base is the begin of a model that was stored
  obtain ⟨m, hm, hbase⟩ : ∃ m ∈ oldest :: others, w.base = m.startAddr := by
    rcases hbase with hbase | ⟨m, hm, hbase⟩
    · exact ⟨oldest, by simp, hbase⟩
    · exact ⟨m, List.mem_cons_of_mem _ hm, hbase⟩
  have hm' := hinside m hm
  refine ⟨others.length + 1, w.base, info'', ?_, Placed.of_clear (fun m hm => ?_) hclear hlisted'.models
    (hbase ▸ (hsectors m hm).1) (by omega) hroom⟩
  · rw [heq, hrun, Option.map_some, finish_eq hlisted' (by omega) (by omega)]
  · exact hinside m (List.mem_cons_of_mem _ (hsub m hm))

/-- Without a model nothing can be removed, and the section is too small. -/
theorem Stored.no_room (h : Stored sec info) (hcnt : info.supportedModelCnt ≠ invalidModelNum)
    (hclean : Cleans sec info newModelLen) (hmodels : info.models = []) : sec.stop < newModelLen + sec.start := by
  rcases hclean with hroom | hfull
  · rwa [largest, hmodels, List.map_nil, List.foldl_nil, align4K_of_aligned sec.le sec.start_aligned] at hroom
  · exact absurd hmodels (h.models_ne_nil hfull hcnt)

/-- Where a model is in the way as `Skips` says, the loop leaves out one. -/
theorem Stored.clean_leaves_out (h : Stored sec info) (hcnt : info.supportedModelCnt ≠ invalidModelNum)
    (hlen : newModelLen < 2 ^ 31) (hclean : Cleans sec info newModelLen) {oldest : ModelInfo} {others : List ModelInfo}
    (hmodels : info.models = oldest :: others)
    (hsectors : ∀ m ∈ info.models, m.startAddr % 4096 = 0 ∧ 0 < m.len)
    (hskips : Evict.Skips ModelInfo.startAddr ModelInfo.sectors ⟨others, oldest.startAddr, oldest.sectors⟩
      newModelLen) :
    LeavesOut sec info newModelLen := by
  obtain ⟨info', hlisted, hfirst, hothers, hsum, heq⟩ := h.clean_eq hcnt hlen hclean hmodels
  have hlaid := h.laid hsectors
  rw [hmodels] at hlaid
  obtain ⟨rounds, info'', w, hrun, hlisted', hround, m, htakes, m', hm', hover⟩ := cleanLoop_leaves_out hlisted hfirst
    hothers hsum (hlaid.sublist (List.sublist_cons_self _ _)) (clear_oldest hlaid) hskips
  refine ⟨rounds, info'', w.base, w.room, fun fuel => ?_, hround, m, htakes, m', ?_, hover⟩
  · rw [heq, hrun]
  · rwa [hlisted'.models]

theorem Stored.clean_enough (h : Stored sec info) (hcnt : info.supportedModelCnt ≠ invalidModelNum)
    (hlen : newModelLen < 2 ^ 31) (hclean : Cleans sec info newModelLen) {fuel addr : Nat} {info' : GsoundInfo}
    (hrun : newAddr sec fuel info newModelLen = some (addr, info'))
    (hplaced : addr ≠ 0 → Placed sec info' modelId newModelLen addr) :
    newModelLen ≤ (info.models.map ModelInfo.sectors).sum := by
  cases hmodels : info.models with
  | nil =>
    exfalso
    have hroom := h.no_room hcnt hclean hmodels
    rw [(h.newAddr_eq hcnt hlen fuel).1 hclean] at hrun
    simp only [Option.bind_eq_bind, Option.bind_eq_some_iff, Option.some.injEq] at hrun
    obtain ⟨-, -, -, -, r, -, hfinish⟩ := hrun
    have hlow := finish_low sec r
    rw [hfinish] at hlow
    dsimp only at hlow
    have hbase := sec.base
    have := (hplaced (by omega)).high
    omega
  | cons oldest others =>
    obtain ⟨info'', hlisted, hfirst, hothers, hsum, heq⟩ := h.clean_eq hcnt hlen hclean hmodels
    rw [List.map_cons, List.sum_cons]
    rw [heq] at hrun
    obtain ⟨r, hrun, -⟩ := Option.map_eq_some_iff.1 hrun
    exact cleanLoop_enough hlisted hfirst hothers hsum hrun

/-- For the first model neither the table nor the size of the section is looked at. -/
theorem first_iff (hcnt : info.supportedModelCnt = invalidModelNum) :
    (∃ fuel addr info', newAddr sec fuel info newModelLen = some (addr, info') ∧
      (addr ≠ 0 → Placed sec info' modelId newModelLen addr)) ↔ sec.start + newModelLen ≤ sec.stop := by
  have hrun : ∀ fuel, newAddr sec fuel info newModelLen = some (sec.start, info) := fun fuel => if_pos hcnt
  constructor
  · rintro ⟨fuel, addr, info', hrun', hplaced⟩
    cases (hrun fuel).symm.trans hrun'
    have hbase := sec.base
    exact (hplaced (by omega)).high
  · intro hroom
    refine ⟨0, sec.start, info, hrun 0, fun _ => ⟨sec.start_aligned, Nat.le_refl _, hroom, ?_⟩⟩
    rw [GsoundInfo.models, if_pos hcnt]
    simp

/-- The search for a place of a new model ends well where the models removed make
enough room and none is left out, and only where they make enough room. -/
theorem Stored.new_model (h : Stored sec info) (hlen : newModelLen < 2 ^ 31)
    (hfind : info.modelInfo.toList.find? (·.hasId modelId) = none) :
    (Fits sec info modelId true newModelLen ∧ Orderly sec info modelId true newModelLen →
      ∃ fuel addr info', newAddr sec fuel info newModelLen = some (addr, info') ∧
        (addr ≠ 0 → Placed sec info' modelId newModelLen addr)) ∧
    ((∃ fuel addr info', newAddr sec fuel info newModelLen = some (addr, info') ∧
      (addr ≠ 0 → Placed sec info' modelId newModelLen addr)) → Fits sec info modelId true newModelLen) := by
  unfold Fits Orderly
  rw [hfind]
  by_cases hcnt : info.supportedModelCnt = invalidModelNum
  · rw [first_iff hcnt]
    exact ⟨fun hcond => (hcond.1 rfl).1 hcnt, fun hroom _ => ⟨fun _ => hroom, fun hne => absurd hcnt hne⟩⟩
  by_cases hclean : Cleans sec info newModelLen
  · constructor
    · rintro ⟨hfits, horderly⟩
      have henough := (hfits rfl).2 hcnt hclean
      cases hmodels : info.models with
      | nil =>
        have hroom := h.no_room hcnt hclean hmodels
        have hle := sec.le
        rw [hmodels, List.map_nil, List.sum_nil] at henough
        omega
      | cons oldest others =>
        obtain ⟨hsectors, hskips⟩ := horderly rfl rfl hcnt hclean oldest others hmodels
        obtain ⟨fuel, addr, info', hrun, hplaced⟩ :=
          h.clean_placed modelId hcnt hlen hclean hmodels hsectors hskips henough
        exact ⟨fuel, addr, info', hrun, fun _ => hplaced⟩
    · rintro ⟨fuel, addr, info', hrun, hplaced⟩ -
      exact ⟨fun hinvalid => absurd hinvalid hcnt, fun _ _ => h.clean_enough hcnt hlen hclean hrun hplaced⟩
  · refine ⟨fun _ => ⟨0, _, info, (h.newAddr_eq hcnt hlen 0).2 hclean, fun _ => h.placed_behind ?_⟩, fun _ _ => ?_⟩
    · exact Nat.le_of_not_lt fun hlt => hclean (.inl hlt)
    · exact ⟨fun hinvalid => absurd hinvalid hcnt, fun _ hclean' => absurd hclean' hclean⟩

/-- What is not orderly shows in the table, or in the loop. -/
theorem Stored.leaves_out (h : Stored sec info) (hlen : newModelLen < 2 ^ 31)
    (horderly : ¬ Orderly sec info modelId addNew newModelLen) :
    (∃ m ∈ info.models, m.startAddr % 4096 ≠ 0 ∨ m.len = 0) ∨ LeavesOut sec info newModelLen := by
  by_cases hsectors : ∀ m ∈ info.models, m.startAddr % 4096 = 0 ∧ 0 < m.len
  · refine .inr (by_contra fun hleaves => horderly fun _ _ hcnt hclean oldest others hmodels => ⟨hsectors, ?_⟩)
    exact fun hskips => hleaves (h.clean_leaves_out hcnt hlen hclean hmodels hsectors hskips)
  · left
    by_contra hnone
    refine hsectors fun m hm => ⟨?_, ?_⟩
    · exact by_contra fun hstart => hnone ⟨m, hm, .inl hstart⟩
    · exact Nat.pos_of_ne_zero fun hempty => hnone ⟨m, hm, .inr hempty⟩

end Stored

section Example

def exampleModel (id : UInt8) (startAddr len : Nat) : ModelInfo := ⟨#v[id, id, id, id, 0], startAddr, len⟩

/-- 240 KB, as `HOTWORD_SECTION_SIZE` says. -/
def exampleSection : Section where
  start := 0x38F00000
  stop := 0x38F3C000
  le := by decide
  start_aligned := by decide
  stop_aligned := by decide
  base := by decide
  flash := by decide

/-- The model of the firmware, and `a`, `b` and `c`. -/
def exampleInfo (cnt : Nat) (a b c : ModelInfo) : GsoundInfo where
  supportedModelCnt := cnt
  modelInfo := #v[exampleModel 50 0x38040000 0xA000, a, b, c, exampleModel 0 0 0, exampleModel 0 0 0,
    exampleModel 0 0 0, exampleModel 0 0 0, exampleModel 0 0 0, exampleModel 0 0 0, exampleModel 0 0 0]

/-- A model of 80 KB does not make room for one of 200 KB. -/
def exampleShort : GsoundInfo :=
  exampleInfo 2 (exampleModel 1 0x38F00000 0x14000) (exampleModel 0 0 0) (exampleModel 0 0 0)

/-- The last two models below the first one lie in the wrong order. -/
def exampleSkip : GsoundInfo :=
  exampleInfo 4 (exampleModel 1 0x38F28000 0xA000) (exampleModel 2 0x38F0F000 0x19000)
    (exampleModel 3 0x38F00000 0xF000)

def exampleRing : GsoundInfo :=
  exampleInfo 3 (exampleModel 1 0x38F00000 0x1E000) (exampleModel 2 0x38F1E000 0x14000) (exampleModel 0 0 0)

theorem stored_of_le {sec : Section} {info : GsoundInfo} (hcnt : info.supportedModelCnt ≤ maxNum)
    (hinside : ∀ m ∈ info.models, sec.start ≤ m.startAddr ∧ m.startAddr + m.len ≤ sec.stop)
    (hapart : info.models.Pairwise fun m m' =>
      m.startAddr + m.len ≤ m'.startAddr ∨ m'.startAddr + m'.len ≤ m.startAddr) : Stored sec info :=
  ⟨.inl hcnt, hinside, hapart.imp apart_of_le⟩

end Example

end NvRecord.Hotword
