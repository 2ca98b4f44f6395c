import LittleBuddy.Lib.Runs
import LittleBuddy.NvRecord.LegacyListRuns
import Mathlib
/-!
# Additions and deletions on the pairing list

Sequences of `nv_record_ddbrec_add` and `nv_record_ddbrec_delete`. While the blocks of
every entry are there, each of them does to the devices in the pool what `effect`
does to a list of devices.
-/
open Blocks LinkedPool NvRecord.Bt Runs

namespace NvRecord.Legacy

/-- An operation on the list; `low` is whether `pool_free_space` is less than a record. -/
inductive Op where
  | add (param_rec : BtifDeviceRecord) (low : Bool)
  | delete (bdaddr : BdAddr)

/-- The operation is performed; whether it succeeds. -/
def perform (heap : HeapMalloc) (defaults : BtdeviceVolume) : Op → M Bool
  | .add param_rec low => ddbrecAdd heap defaults param_rec low
  | .delete bdaddr => ddbrecDelete bdaddr

/-- An operation that ends with the answer. -/
def step (heap : HeapMalloc) (defaults : BtdeviceVolume) (e : Op × Bool) (s : Pool) : Option Pool :=
  (perform heap defaults e.1 s).bind fun (ok, s') => if ok = e.2 then some s' else none

/-! ## What the operations are for -/

def Device.addr (d : Device) : BdAddr := d.record.bdAddr

/-- Without the oldest one, where the list is full. -/
def roomFor {α : Type} (l : List α) : List α := if l.length = ddbRecordNum then l.tail else l

/-- The devices with the record as the latest one, and without the oldest ones where there is no room. -/
def added (defaults : BtdeviceVolume) (param_rec : BtifDeviceRecord) (low : Bool) (devices : List Device) : List Device :=
  roomFor ((if low then devices.tail else devices).filter fun d => d.addr ≠ param_rec.bdAddr) ++
    [newDevice defaults param_rec (devices.find? fun d => d.addr = param_rec.bdAddr)]

/-- What an operation with its answer does to the devices. -/
def effect (defaults : BtdeviceVolume) (devices : List Device) : Op × Bool → List Device
  | (.add param_rec low, ok) =>
    if devices.getLast?.map Device.record = some param_rec then devices
    else if ok then added defaults param_rec low devices
    else if low then devices.tail else devices
  | (.delete bdaddr, _) => devices.filter fun d => d.addr ≠ bdaddr

/-- The addresses by when they were added last. -/
def recency (addrs : List BdAddr) : Op × Bool → List BdAddr
  | (.add param_rec _, true) => (addrs.filter fun a => a ≠ param_rec.bdAddr) ++ [param_rec.bdAddr]
  | _ => addrs

/-! ## Where the blocks of an entry are there -/

def Pool.deviceAt (s : Pool) (node : Addr) : Option Device :=
  (s.data node).bind fun entry => (s.entry entry).bind fun kv => (s.value kv.2).bind s.record

def Pool.oldest (s : Pool) : Option Device := (s.entries.bind ListExt.head).bind s.deviceAt

def Pool.latest (s : Pool) : Option Device := (s.entries.bind ListExt.tail).bind s.deviceAt

/-- The operation can be performed in the pool: an addition changes nothing, or finds a section
where it has to make room, and if there is a block for the record it finds one for each other part of
the entry and has not made room with the only record of its own device. -/
def Fits (s : Pool) : Op → Prop
  | .add param_rec low => s.latest.map Device.record = some param_rec ∨
      (low = true → s.entries ≠ none) ∧
      (s.answers.head? = some true → List.replicate (entryBlocks s) true <+: s.answers.tail ∧
        ¬(low = true ∧ ddbrecLength s = 1 ∧ s.oldest.map Device.addr = some param_rec.bdAddr))
  | .delete _ => True

section Lookups

variable {s : Pool} {cells : List Cell} {loose : List (Addr × Device)} {c : Cell} {key : BdAddr}

theorem Owned.deviceAt_eq (h : Owned s cells loose) (hc : c ∈ cells) : s.deviceAt c.node = some c.device := by
  rw [Pool.deviceAt, h.data.read hc, Option.bind_some, h.entry.read hc, Option.bind_some, h.value.read hc, Option.bind_some,
    h.read_record hc]

theorem Held.latest_eq (h : Held s cells loose) : s.latest = (cells.map Cell.device).getLast? := by
  rcases h with h | ⟨rfl, hentries, _⟩
  · rw [Pool.latest, h.entries]
    obtain rfl | ⟨l, c, rfl⟩ := List.eq_nil_or_concat' cells
    · rfl
    · have hc : c ∈ l ++ [c] := List.mem_append_right _ (List.mem_singleton_self c)
      simp only [Option.bind_some, listOf, List.map_append, List.map_singleton, List.getLast?_concat, h.toOwned.deviceAt_eq hc]
  · rw [Pool.latest, hentries]
    rfl

theorem Held.oldest_eq (h : Held s cells loose) : s.oldest = (cells.map Cell.device).head? := by
  rcases h with h | ⟨rfl, hentries, _⟩
  · rw [Pool.oldest, h.entries]
    cases cells with
    | nil => rfl
    | cons c cells =>
      simp only [Option.bind_some, listOf, List.map_cons, List.head?_cons, h.toOwned.deviceAt_eq List.mem_cons_self]
  · rw [Pool.oldest, hentries]
    rfl

theorem Held.length_eq (h : Held s cells loose) : ddbrecLength s = cells.length := by
  rcases h with h | ⟨rfl, hentries, _⟩
  · rw [ddbrecLength, h.entries]
    rfl
  · rw [ddbrecLength, hentries]
    rfl

theorem Held.getInt_run (h : Held s cells loose) :
    nvrecConfigGetInt key s = some ((cells.find? fun c => c.addr = key).map Cell.record, s) := by
  rcases h with h | ⟨rfl, hentries, _⟩
  · exact h.toLinked.getInt_run
  · exact getInt_none hentries

theorem Held.toOwned (h : Held s cells loose) : Owned s cells loose := by
  rcases h with h | ⟨rfl, _, h⟩
  · exact h.toOwned
  · exact h

/-- The device that the record of the key is read from. -/
theorem Held.old_run (h : Held s cells loose) :
    (match (cells.find? fun c => c.addr = key).map Cell.record with
      | none => pure none
      | some record => recordOf record >>= fun d => pure (some d) : M (Option Device)) s =
        some ((cells.find? fun c => c.addr = key).map Cell.device, s) := by
  cases hfind : cells.find? fun c => c.addr = key with
  | none => rfl
  | some c =>
    simp only [Option.map_some]
    rw [bind_run (recordOf_run (h.toOwned.read_record (List.mem_of_find?_eq_some hfind)))]
    rfl

/-- `nv_record_ddbrec_find`. -/
theorem Held.find_run (h : Held s cells loose) :
    ddbrecFind key s = some ((cells.find? fun c => c.addr = key).map fun c => c.device.record, s) := by
  rw [ddbrecFind, bind_run h.getInt_run]
  cases hfind : cells.find? fun c => c.addr = key with
  | none => rfl
  | some c =>
    simp only [Option.map_some]
    rw [bind_run (recordOf_run (h.toOwned.read_record (List.mem_of_find?_eq_some hfind)))]
    rfl

theorem Linked.eq_of_addr (h : Linked s cells loose) {b : Cell} (hb : b ∈ cells) (hc : c ∈ cells) (heq : b.addr = c.addr) : b = c :=
  List.inj_on_of_nodup_map h.distinct hb hc heq

theorem Linked.find_eq (h : Linked s cells loose) (hc : c ∈ cells) (hkey : c.addr = key) :
    cells.find? (fun c => c.addr = key) = some c := by
  obtain ⟨l₁, l₂, rfl⟩ := List.append_of_mem hc
  subst hkey
  exact h.find_middle

/-- Nothing is to be changed if the record is that of the latest device. -/
theorem Held.isFlush_run {param_rec : BtifDeviceRecord} (h : Held s cells loose) :
    isFlush param_rec ((cells.find? fun c => c.addr = param_rec.bdAddr).map Cell.device) s =
      some (decide (s.latest.map Device.record ≠ some param_rec), s) := by
  rw [h.latest_eq]
  rcases h with h | ⟨rfl, _, _⟩
  · obtain rfl | ⟨l, e, rfl⟩ := List.eq_nil_or_concat' cells
    · rfl
    have he : e ∈ l ++ [e] := List.mem_append_right _ (List.mem_singleton_self e)
    have hlatest : ((l ++ [e]).map Cell.device).getLast?.map Device.record = some e.device.record := by simp
    have hlast : e.device.record = param_rec → (l ++ [e]).find? (fun c => c.addr = param_rec.bdAddr) = some e :=
      fun heq => h.find_eq he (congrArg BtifDeviceRecord.bdAddr heq)
    simp only [hlatest, ne_eq, Option.some.injEq]
    cases hfind : (l ++ [e]).find? fun c => c.addr = param_rec.bdAddr with
    | none =>
      have hne : e.device.record ≠ param_rec := fun heq => Option.some_ne_none e ((hlast heq).symm.trans hfind)
      rw [decide_eq_true hne]
      rfl
    | some c =>
      rw [hfind] at hlast
      have hkey : c.addr = param_rec.bdAddr := by simpa using List.find?_some hfind
      simp only [Option.map_some, isFlush]
      split
      · rename_i hrecord
        rw [bind_run (h.isTail_run param_rec.bdAddr (c := e) (by simp))]
        by_cases htail : e.addr = param_rec.bdAddr
        · obtain rfl := h.eq_of_addr he (List.mem_of_find?_eq_some hfind) (htail.trans hkey.symm)
          simp [htail, hrecord, pure_run]
        · have hne : e.device.record ≠ param_rec := fun heq => htail (congrArg BtifDeviceRecord.bdAddr heq)
          simp [htail, hne, pure_run]
      · rename_i hrecord
        have hne : e.device.record ≠ param_rec := by
          intro heq
          obtain rfl := Option.some_inj.mp (hlast heq)
          exact hrecord heq
        rw [decide_eq_true hne]
        rfl
  · rfl

end Lookups

/-! ## Single operations -/

section Operations

variable {s : Pool} {cells : List Cell} {loose : List (Addr × Device)} {c : Cell} {key : BdAddr} {answers : List Bool}
  {param_rec : BtifDeviceRecord} {old : Option Device} {r : Addr} {d : Device}

theorem length_roomFor {α : Type} {l : List α} (h : l.length ≤ ddbRecordNum) : (roomFor l).length < ddbRecordNum := by
  rw [roomFor]
  split
  · rename_i hfull
    rw [List.length_tail, hfull]
    decide
  · rename_i hfull
    exact Nat.lt_of_le_of_ne h hfull

theorem roomFor_sublist {α : Type} (l : List α) : (roomFor l).Sublist l := by
  rw [roomFor]
  split
  · exact List.tail_sublist l
  · exact List.Sublist.refl l

theorem map_roomFor {α β : Type} (f : α → β) (l : List α) : (roomFor l).map f = roomFor (l.map f) := by
  rw [roomFor, roomFor, List.length_map]
  split
  · exact List.map_tail
  · rfl

/-- A record that is not linked yet. -/
theorem Owned.withRecord (h : Owned s cells []) (hr : s.record r = none) :
    Owned { s with record := Function.update s.record r (some d) } cells [(r, d)] := by
  refine ⟨h.data, h.entry, h.key, h.value, ?_, h.other⟩
  have halloc := h.record.alloc (c := (r, d)) hr
  rw [List.append_nil] at halloc
  exact halloc

theorem Rep.withRecord (h : Rep s cells []) (hr : s.record r = none) :
    Rep { s with record := Function.update s.record r (some d) } cells [(r, d)] :=
  ⟨⟨h.toOwned.withRecord hr, h.head, h.chain, h.distinct, h.length_le⟩, h.entries⟩

theorem Held.withRecord (h : Held s cells []) (hr : s.record r = none) :
    Held { s with record := Function.update s.record r (some d) } cells [(r, d)] := by
  rcases h with h | ⟨rfl, hentries, h⟩
  · exact .inl (h.withRecord hr)
  · exact .inr ⟨rfl, hentries, h.withRecord hr⟩

/-- The own device is deleted if it has been there. -/
theorem Held.deleteOld_run (key : BdAddr) (old : Option Device) (h : Held s cells loose) (hne : old.isSome = true → cells ≠ [])
    (hnone : old.isSome = false → ∀ c ∈ cells, c.addr ≠ key) :
    ∃ s', (if old.isSome then specificEntryValueDelete key else pure ()) s = some ((), s') ∧
      Held s' (cells.filter fun c => c.addr ≠ key) loose ∧ s'.answers = s.answers ∧ entryBlocks s' = entryBlocks s := by
  cases hold : old.isSome with
  | false =>
    have hfilter : cells.filter (fun c => c.addr ≠ key) = cells :=
      List.filter_eq_self.mpr fun c hc => decide_eq_true (hnone hold c hc)
    exact ⟨s, rfl, hfilter.symm ▸ h, rfl, rfl⟩
  | true =>
    have hrep : Rep s cells loose := h.resolve_right fun h => hne hold h.1
    obtain ⟨s', hrun, hrep', hanswers⟩ := hrep.valueDelete_run key (hne hold)
    refine ⟨s', hrun, .inl hrep', hanswers, ?_⟩
    rw [entryBlocks, entryBlocks, hrep'.entries, hrep.entries]
    rfl

/-- A full list loses its oldest device. -/
theorem Held.roomFor_run (h : Held s cells loose) :
    ∃ s', (if ddbRecordNum = ddbrecLength s then ddbdevDeleteHead else pure ()) s = some ((), s') ∧
      Held s' (roomFor cells) loose ∧ s'.answers = s.answers ∧ entryBlocks s' = entryBlocks s := by
  rw [h.length_eq, roomFor]
  by_cases hfull : cells.length = ddbRecordNum
  · rw [if_pos hfull, if_pos hfull.symm]
    cases cells with
    | nil => cases hfull
    | cons c cells =>
      have hrep : Rep s (c :: cells) loose := h.resolve_right fun h => List.cons_ne_nil _ _ h.1
      obtain ⟨s', hrun, hrep', hanswers⟩ := hrep.deleteHead_run
      refine ⟨s', hrun, .inl hrep', hanswers, ?_⟩
      rw [entryBlocks, entryBlocks, hrep'.entries, hrep.entries]
      rfl
  · rw [if_neg hfull, if_neg fun heq => hfull heq.symm]
    exact ⟨s, rfl, h, rfl, rfl⟩

variable (heap : HeapMalloc) (defaults : BtdeviceVolume)

theorem Held.addRecord_run (h : Held s cells []) (hr : s.record r = none) (hlength : cells.length ≤ ddbRecordNum)
    (hne : old.isSome = true → cells ≠ []) (hnone : old.isSome = false → ∀ c ∈ cells, c.addr ≠ param_rec.bdAddr)
    (hanswers : s.answers = List.replicate (entryBlocks s) true ++ answers) :
    ∃ c s', addRecord heap defaults param_rec old r s = some (true, s') ∧
      Rep s' (roomFor (cells.filter fun c => c.addr ≠ param_rec.bdAddr) ++ [c]) [] ∧ c.device = newDevice defaults param_rec old ∧
      s'.answers = answers := by
  obtain ⟨s₁, hdelete, h₁, hanswers₁, hblocks₁⟩ := (h.withRecord hr (d := newDevice defaults param_rec old)).deleteOld_run
    param_rec.bdAddr old hne hnone
  obtain ⟨s₂, hroom, h₂, hanswers₂, hblocks₂⟩ := h₁.roomFor_run
  have hlength₁ : (cells.filter fun c => c.addr ≠ param_rec.bdAddr).length ≤ ddbRecordNum :=
    Nat.le_trans (List.length_filter_le _ _) hlength
  have hlength₂ := length_roomFor hlength₁
  have hblocks : s₂.answers = List.replicate (entryBlocks s₂) true ++ answers := by
    rw [hanswers₂, hanswers₁, hblocks₂, hblocks₁]
    exact hanswers
  have hnew : ∀ c ∈ roomFor (cells.filter fun c => c.addr ≠ param_rec.bdAddr), c.addr ≠ param_rec.bdAddr := by
    intro c hc
    simpa using (List.mem_filter.mp ((roomFor_sublist _).subset hc)).2
  obtain ⟨c, s', hset, hrep, hdevice, hleft⟩ := h₂.setInt_run heap hnew
    (Nat.lt_of_lt_of_le hlength₂ (by decide)) hblocks
  have hset : nvrecConfigSetInt heap param_rec.bdAddr r s₂ = some ((), s') := hset
  refine ⟨c, s', ?_, hrep, hdevice, hleft⟩
  rw [addRecord, bind_run (x := ()) rfl, bind_run hdelete, bind_run (rfl : (get : M Pool) s₁ = some (s₁, s₁)), bind_run hroom,
    bind_run hset]
  rfl

/-- Where the pool has not enough space, the oldest device is deleted. -/
theorem Held.low_run {low : Bool} (h : Held s cells loose) (hlow : low = true → s.entries ≠ none) :
    ∃ s', (if low then ddbdevDeleteHead else pure ()) s = some ((), s') ∧ Held s' (if low then cells.tail else cells) loose ∧
      s'.answers = s.answers ∧ entryBlocks s' = entryBlocks s := by
  cases low with
  | false => exact ⟨s, rfl, h, rfl, rfl⟩
  | true =>
    have hrep : Rep s cells loose := h.resolve_right fun h => hlow rfl h.2.1
    cases cells with
    | nil => exact ⟨s, hrep.deleteHead_nil, h, rfl, rfl⟩
    | cons c cells =>
      obtain ⟨s', hrun, hrep', hanswers⟩ := hrep.deleteHead_run
      refine ⟨s', hrun, .inl hrep', hanswers, ?_⟩
      rw [entryBlocks, entryBlocks, hrep'.entries, hrep.entries]
      rfl

/-- An addition that changes something, up to the allocation of the record. -/
theorem Held.ddbrecAdd_eq {low : Bool} (h : Held s cells loose) (hlatest : s.latest.map Device.record ≠ some param_rec) :
    ddbrecAdd heap defaults param_rec low s = ((if low then ddbdevDeleteHead else pure ()) >>= fun _ : Unit =>
      poolMalloc heap >>= fun record =>
        match record with
        | none => pure false
        | some record =>
          addRecord heap defaults param_rec ((cells.find? fun c => c.addr = param_rec.bdAddr).map Cell.device) record) s := by
  rw [ddbrecAdd, bind_run h.getInt_run]
  refine (bind_run h.old_run).trans ?_
  refine (bind_run h.isFlush_run).trans ?_
  rw [decide_eq_true hlatest]
  exact congrFun (if_pos rfl) s

theorem poolMalloc_none (h : s.answers.head? ≠ some true) :
    poolMalloc heap s = some (none, { s with answers := s.answers.tail }) := by
  rw [poolMalloc]
  split
  · rename_i answers hanswers
    rw [hanswers] at h
    exact absurd rfl h
  · rename_i ok answers _ hanswers
    rw [hanswers]
    rfl
  · rename_i hanswers
    simp only [hanswers, List.tail_nil]
    rw [← hanswers]

theorem Rep.withAnswers (h : Rep s cells loose) (answers : List Bool) : Rep { s with answers } cells loose :=
  ⟨⟨⟨h.data, h.entry, h.key, h.value, h.record, h.other⟩, h.head, h.chain, h.distinct, h.length_le⟩, h.entries⟩

theorem Held.withAnswers (h : Held s cells loose) (answers : List Bool) : Held { s with answers } cells loose := by
  rcases h with h | ⟨rfl, hentries, h⟩
  · exact .inl (h.withAnswers answers)
  · exact .inr ⟨rfl, hentries, h.data, h.entry, h.key, h.value, h.record, h.other⟩

/-- The own record is left for the deletion behind the one that made room. -/
theorem Held.own_left {low : Bool} (h : Held s cells loose)
    (hown : ¬(low = true ∧ ddbrecLength s = 1 ∧ s.oldest.map Device.addr = some key))
    (hold : (cells.find? fun c => c.addr = key).isSome = true) : (if low then cells.tail else cells) ≠ [] := by
  rw [h.length_eq, h.oldest_eq] at hown
  obtain ⟨c, hfind⟩ := Option.isSome_iff_exists.mp hold
  have hkey : c.addr = key := by simpa using List.find?_some hfind
  have hc := List.mem_of_find?_eq_some hfind
  cases low with
  | false => exact List.ne_nil_of_mem hc
  | true =>
    cases cells with
    | nil => cases hc
    | cons a cells =>
      rintro rfl
      rw [List.mem_singleton.mp hc] at hkey
      exact hown ⟨rfl, rfl, congrArg some hkey⟩

/-- An addition that has its blocks links a new record behind the devices. -/
theorem Held.adds_run {low : Bool} (h : Held s cells []) (hlength : cells.length ≤ ddbRecordNum)
    (hlatest : s.latest.map Device.record ≠ some param_rec) (hlow : low = true → s.entries ≠ none)
    (hown : ¬(low = true ∧ ddbrecLength s = 1 ∧ s.oldest.map Device.addr = some param_rec.bdAddr))
    (hanswers : s.answers = true :: (List.replicate (entryBlocks s) true ++ answers)) :
    ∃ c s', ddbrecAdd heap defaults param_rec low s = some (true, s') ∧
      Rep s' (roomFor ((if low then cells.tail else cells).filter fun c => c.addr ≠ param_rec.bdAddr) ++ [c]) [] ∧
      c.device = newDevice defaults param_rec ((cells.find? fun c => c.addr = param_rec.bdAddr).map Cell.device) ∧
      s'.answers = answers := by
  obtain ⟨s₁, hrun₁, h₁, hanswers₁, hblocks₁⟩ := h.low_run hlow
  rw [← hblocks₁] at hanswers
  have hfree := heap.pick_free s₁ h₁.toOwned.bounded
  simp only [Pool.InUse, not_or, not_not] at hfree
  have hsub : (if low then cells.tail else cells).Sublist cells := by
    split
    · exact List.tail_sublist cells
    · exact List.Sublist.refl cells
  have hold : ((cells.find? fun c => c.addr = param_rec.bdAddr).map Cell.device).isSome = true →
      (if low then cells.tail else cells) ≠ [] := by
    rw [Option.isSome_map]
    exact h.own_left hown
  have hnone : ((cells.find? fun c => c.addr = param_rec.bdAddr).map Cell.device).isSome = false →
      ∀ c ∈ if low then cells.tail else cells, c.addr ≠ param_rec.bdAddr := by
    rw [Option.isSome_map, Option.isSome_eq_false_iff, Option.isNone_iff_eq_none]
    exact fun hfind c hc heq => List.find?_eq_none.mp hfind c (hsub.subset hc) (decide_eq_true heq)
  obtain ⟨c, s', hrecord, hrep, hdevice, hleft⟩ := (h₁.withAnswers (List.replicate (entryBlocks s₁) true ++ answers)).addRecord_run
    heap defaults hfree.2.2.2.2.1 (Nat.le_trans hsub.length_le hlength) hold hnone rfl
  refine ⟨c, s', ?_, hrep, hdevice, hleft⟩
  rw [h.ddbrecAdd_eq heap defaults hlatest, bind_run hrun₁, bind_run (poolMalloc_run heap (hanswers₁.trans hanswers))]
  exact hrecord

theorem Held.add_run {low : Bool} (h : Held s cells []) (hlength : cells.length ≤ ddbRecordNum)
    (hfits : Fits s (.add param_rec low)) :
    ∃ ok s' cells', ddbrecAdd heap defaults param_rec low s = some (ok, s') ∧ Held s' cells' [] ∧
      cells'.map Cell.device = effect defaults (cells.map Cell.device) (.add param_rec low, ok) := by
  by_cases hlatest : s.latest.map Device.record = some param_rec
  · refine ⟨true, s, cells, ?_, h, ?_⟩
    · rw [ddbrecAdd, bind_run h.getInt_run]
      refine (bind_run h.old_run).trans ?_
      rw [bind_run h.isFlush_run, decide_eq_false (not_not.mpr hlatest), if_neg Bool.false_ne_true]
      rfl
    · rw [h.latest_eq] at hlatest
      rw [effect, if_pos hlatest]
  · obtain ⟨hlow, hblocks⟩ := hfits.resolve_left hlatest
    have hunlike : (cells.map Cell.device).getLast?.map Device.record ≠ some param_rec := by
      rw [← h.latest_eq]
      exact hlatest
    have hdevices : (if low then cells.tail else cells).map Cell.device =
        if low then (cells.map Cell.device).tail else cells.map Cell.device := by
      split
      · exact List.map_tail
      · rfl
    by_cases hmalloc : s.answers.head? = some true
    · obtain ⟨⟨answers, hanswers⟩, hown⟩ := hblocks hmalloc
      have hall : s.answers = true :: (List.replicate (entryBlocks s) true ++ answers) := by
        rw [hanswers]
        exact List.eq_cons_of_mem_head? hmalloc
      obtain ⟨c, s', hrun, hrep, hdevice, _⟩ := h.adds_run heap defaults hlength hlatest hlow hown hall
      refine ⟨true, s', _, hrun, .inl hrep, ?_⟩
      rw [effect, if_neg hunlike, if_pos rfl, added, List.map_append, List.map_singleton, hdevice, map_roomFor, ← hdevices,
        List.filter_map, List.find?_map]
      rfl
    · obtain ⟨s₁, hrun₁, h₁, hanswers₁, _⟩ := h.low_run hlow
      have hfails := poolMalloc_none heap (s := s₁) (hanswers₁ ▸ hmalloc)
      refine ⟨false, _, _, ?_, h₁.withAnswers s₁.answers.tail, ?_⟩
      · rw [h.ddbrecAdd_eq heap defaults hlatest, bind_run hrun₁, bind_run hfails]
        rfl
      · rw [effect, if_neg hunlike, if_neg Bool.false_ne_true, hdevices]

/-- Where room is made with the only record, and it is the device's own, the deletion behind it finds no head. -/
theorem Rep.add_faults (h : Rep s [c] []) (haddr : c.addr = param_rec.bdAddr) (hrecord : c.device.record ≠ param_rec)
    (hanswers : s.answers = true :: answers) : ddbrecAdd heap defaults param_rec true s = none := by
  have hheld : Held s [c] [] := .inl h
  have hlatest : s.latest.map Device.record ≠ some param_rec := by
    rw [hheld.latest_eq]
    exact fun heq => hrecord (Option.some_inj.mp heq)
  obtain ⟨s₁, hrun₁, h₁, hanswers₁⟩ := h.deleteHead_run
  have hfree := heap.pick_free s₁ h₁.toOwned.bounded
  simp only [Pool.InUse, not_or, not_not] at hfree
  have hfind : [c].find? (fun c => c.addr = param_rec.bdAddr) = some c := h.toLinked.find_eq List.mem_cons_self haddr
  rw [hheld.ddbrecAdd_eq heap defaults hlatest, if_pos rfl, bind_run hrun₁,
    bind_run (poolMalloc_run heap (hanswers₁.trans hanswers)), hfind]
  have hrep := (h₁.withAnswers answers).withRecord (d := newDevice defaults param_rec (some c.device)) hfree.2.2.2.2.1
  have hold : (if (some c.device).isSome then specificEntryValueDelete param_rec.bdAddr else pure ()) _ = none :=
    hrep.valueDelete_nil param_rec.bdAddr
  simp only [Option.map_some]
  rw [addRecord, bind_run (x := ()) rfl, bind_fault hold]

theorem Held.delete_run {bdaddr : BdAddr} (h : Held s cells []) :
    ∃ ok s' cells', ddbrecDelete bdaddr s = some (ok, s') ∧ Held s' cells' [] ∧
      cells'.map Cell.device = effect defaults (cells.map Cell.device) (.delete bdaddr, ok) := by
  rw [ddbrecDelete, bind_run h.getInt_run]
  cases hfind : cells.find? fun c => c.addr = bdaddr with
  | none =>
    refine ⟨false, s, cells, rfl, h, ?_⟩
    rw [effect, List.filter_map]
    have hne : ∀ c ∈ cells, c.addr ≠ bdaddr := fun c hc heq => List.find?_eq_none.mp hfind c hc (decide_eq_true heq)
    exact congrArg (List.map Cell.device) (List.filter_eq_self.mpr fun c hc => decide_eq_true (hne c hc)).symm
  | some c =>
    have hc := List.mem_of_find?_eq_some hfind
    have hkey : c.addr = bdaddr := by simpa using List.find?_some hfind
    have haddr : c.device.record.bdAddr = bdaddr := hkey
    have hrep : Rep s cells [] := h.resolve_right fun h => List.ne_nil_of_mem hc h.1
    obtain ⟨s', hrun, hrep', _⟩ := hrep.valueDelete_run bdaddr (List.ne_nil_of_mem hc)
    refine ⟨true, s', _, ?_, .inl hrep', ?_⟩
    · simp only [Option.map_some]
      rw [bind_run (recordOf_run (h.toOwned.read_record hc)), haddr, bind_run hrun]
      rfl
    · rw [effect, List.filter_map]
      rfl

/-- What an operation does where it fits. -/
theorem Held.perform_run {op : Op} (h : Held s cells []) (hlength : cells.length ≤ ddbRecordNum) (hfits : Fits s op) :
    ∃ ok s' cells', perform heap defaults op s = some (ok, s') ∧ Held s' cells' [] ∧
      cells'.map Cell.device = effect defaults (cells.map Cell.device) (op, ok) := by
  cases op with
  | add param_rec low => exact h.add_run heap defaults hlength hfits
  | delete bdaddr => exact h.delete_run defaults

end Operations

/-! ## The devices -/

section Devices

variable {devices : List Device} {addrs : List BdAddr} {e : Op × Bool} {defaults : BtdeviceVolume} {param_rec : BtifDeviceRecord}
  {low : Bool}

theorem length_effect (h : devices.length ≤ ddbRecordNum) : (effect defaults devices e).length ≤ ddbRecordNum := by
  obtain ⟨op, ok⟩ := e
  cases op with
  | add param_rec low =>
    have hsub : (if low then devices.tail else devices).Sublist devices := by
      split
      · exact List.tail_sublist devices
      · exact List.Sublist.refl devices
    have hlow := Nat.le_trans hsub.length_le h
    rw [effect]
    split
    · exact h
    · split
      · rw [added, List.length_append, List.length_singleton]
        exact length_roomFor (Nat.le_trans (List.length_filter_le _ _) hlow)
      · exact hlow
  | delete bdaddr => exact Nat.le_trans (List.length_filter_le _ _) h

/-- The record that was added is that of the latest device. -/
theorem latest_effect : (effect defaults devices (.add param_rec low, true)).getLast?.map Device.record = some param_rec := by
  rw [effect]
  split
  · assumption
  · rw [if_pos rfl, added, List.getLast?_concat]
    rfl

theorem sublist_filter {l : List BdAddr} {a : BdAddr} (h : l.Sublist addrs) (ha : a ∉ l) :
    l.Sublist (addrs.filter fun b => b ≠ a) := by
  have hl : l.filter (fun b => b ≠ a) = l := List.filter_eq_self.mpr fun b hb => decide_eq_true fun heq => ha (heq ▸ hb)
  rw [← hl]
  exact h.filter _

/-- The devices stay in the order in which they were added last. -/
theorem effect_recency (h : (devices.map Device.addr).Sublist addrs) (hdistinct : (devices.map Device.addr).Nodup) :
    ((effect defaults devices e).map Device.addr).Sublist (recency addrs e) := by
  obtain ⟨op, ok⟩ := e
  cases op with
  | delete bdaddr => exact (List.filter_sublist.map Device.addr).trans h
  | add param_rec low =>
    have hsub : (if low then devices.tail else devices).Sublist devices := by
      split
      · exact List.tail_sublist devices
      · exact List.Sublist.refl devices
    cases ok with
    | false =>
      rw [effect]
      split
      · exact h
      · exact (hsub.map Device.addr).trans h
    | true =>
      rw [effect, recency]
      split
      · rename_i hlatest
        obtain ⟨d, hd, hrecord⟩ := Option.map_eq_some_iff.mp hlatest
        obtain ⟨l, rfl⟩ := List.getLast?_eq_some_iff.mp hd
        rw [List.map_append] at h hdistinct ⊢
        have haddr : d.addr = param_rec.bdAddr := congrArg BtifDeviceRecord.bdAddr hrecord
        have hnew : param_rec.bdAddr ∉ l.map Device.addr := by
          rw [← haddr]
          exact fun hmem => (List.nodup_append.mp hdistinct).2.2 _ hmem _ List.mem_cons_self rfl
        rw [List.map_singleton, haddr]
        exact (sublist_filter ((List.sublist_append_left _ _).trans h) hnew).append (List.Sublist.refl _)
      · rw [if_pos rfl, added, List.map_append]
        refine List.Sublist.append (sublist_filter ?_ ?_) (List.Sublist.refl _)
        · exact (((roomFor_sublist _).trans (List.filter_sublist.trans hsub)).map Device.addr).trans h
        · intro hmem
          obtain ⟨d, hd, heq⟩ := List.mem_map.mp hmem
          have hne := (List.mem_filter.mp ((roomFor_sublist _).subset hd)).2
          exact of_decide_eq_true hne heq

end Devices

/-! ## Runs -/

section Runs

variable {s : Pool} {cells cells₀ : List Cell} {loose : List (Addr × Device)} {evs : List (Op × Bool)} {heap : HeapMalloc}
  {defaults : BtdeviceVolume}

theorem Held.distinct (h : Held s cells loose) : (cells.map Cell.addr).Nodup := by
  rcases h with h | ⟨rfl, _, _⟩
  · exact Linked.distinct h.toLinked
  · exact List.nodup_nil

theorem step_some {e : Op × Bool} {s' : Pool} (h : step heap defaults e s = some s') :
    perform heap defaults e.1 s = some (e.2, s') := by
  obtain ⟨⟨ok, s₁⟩, hrun, hok⟩ := Option.bind_eq_some_iff.mp h
  have heq : ok = e.2 ∧ s₁ = s' := by simpa using hok
  rw [hrun, heq.1, heq.2]

/-- What a run leaves, where every operation fits. -/
theorem held_of_run (h₀ : cells₀.length ≤ ddbRecordNum)
    (h : Run (step heap defaults) (fun e s => Fits s e.1) (fun s => Held s cells₀ []) s evs) :
    ∃ cells, Held s cells [] ∧ cells.length ≤ ddbRecordNum ∧
      (cells.map Cell.addr).Sublist (evs.foldl recency (cells₀.map Cell.addr)) ∧
      cells.map Cell.device = evs.foldl (effect defaults) (cells₀.map Cell.device) := by
  induction h with
  | nil h => exact ⟨cells₀, h, h₀, List.Sublist.refl _, rfl⟩
  | @snoc s s' evs e _ hfits hstep ih =>
    obtain ⟨cells, hheld, hlength, hrecency, hdevices⟩ := ih
    obtain ⟨ok, s₁, cells', hrun, hheld', hdevices'⟩ := hheld.perform_run heap defaults hlength hfits
    -- the operation has the answer of the event
    rw [step_some hstep] at hrun
    obtain ⟨rfl, rfl⟩ := Prod.mk.inj (Option.some_inj.mp hrun)
    have haddrs : ∀ l : List Cell, l.map Cell.addr = (l.map Cell.device).map Device.addr := by
      intro l
      rw [List.map_map]
      rfl
    refine ⟨cells', hheld', ?_, ?_, ?_⟩
    · rw [← List.length_map (f := Cell.device), hdevices']
      refine length_effect ?_
      rw [List.length_map]
      exact hlength
    · rw [List.foldl_concat, haddrs, hdevices']
      refine effect_recency ?_ ?_
      · rw [← haddrs]
        exact hrecency
      · rw [← haddrs]
        exact hheld.distinct
    · rw [List.foldl_concat, hdevices', hdevices]

/-- While every operation fits, the pool holds the devices that `effect` gives: at most nine, one for
each address, in the order in which they were added last, in a list with the right head, tail and length,
with no block besides theirs. An operation uses no block that is free, and a device that
was added is found with its record. -/
theorem pairing_list_runs (heap : HeapMalloc) (defaults : BtdeviceVolume) {cells₀ : List Cell} (h₀ : cells₀.length ≤ ddbRecordNum)
    {s : Pool} {evs : List (Op × Bool)}
    (h : Run (step heap defaults) (fun e s => Fits s e.1) (fun s => Held s cells₀ []) s evs) :
    (∃ cells, Held s cells [] ∧ cells.length ≤ ddbRecordNum ∧ (cells.map Cell.addr).Nodup ∧
      (cells.map Cell.addr).Sublist (evs.foldl recency (cells₀.map Cell.addr)) ∧
      cells.map Cell.device = evs.foldl (effect defaults) (cells₀.map Cell.device)) ∧
    ∀ op, Fits s op → ∃ ok s', perform heap defaults op s = some (ok, s') ∧
      ∀ param_rec low, op = .add param_rec low → ok = true → ddbrecFind param_rec.bdAddr s' = some (some param_rec, s') := by
  obtain ⟨cells, hheld, hlength, hrecency, hdevices⟩ := held_of_run h₀ h
  refine ⟨⟨cells, hheld, hlength, hheld.distinct, hrecency, hdevices⟩, fun op hfits => ?_⟩
  obtain ⟨ok, s', cells', hrun, hheld', hdevices'⟩ := hheld.perform_run heap defaults hlength hfits
  refine ⟨ok, s', hrun, ?_⟩
  rintro param_rec low rfl rfl
  have hlatest : (effect defaults (cells.map Cell.device) (.add param_rec low, true)).getLast?.map Device.record = some param_rec :=
    latest_effect
  rw [← hdevices', List.getLast?_map, Option.map_map] at hlatest
  obtain ⟨c, hc, hrecord⟩ := Option.map_eq_some_iff.mp hlatest
  have hmem := List.mem_of_getLast? hc
  have hrep : Rep s' cells' [] := hheld'.resolve_right fun h => List.ne_nil_of_mem hmem h.1
  have hfind := hrep.toLinked.find_eq hmem (congrArg BtifDeviceRecord.bdAddr hrecord)
  rw [hheld'.find_run, hfind, Option.map_some]
  exact congrArg (fun record => some (some record, s')) hrecord

end Runs

/-- A heap that gives any block that is not in use. -/
noncomputable def someFree : HeapMalloc where
  pick s := open Classical in if h : ∃ a, ¬s.InUse a then h.choose else 0
  pick_free s hs := by
    have hfree : ∃ a, ¬s.InUse a := by
      obtain ⟨l, hl⟩ := hs
      obtain ⟨a, ha⟩ := Infinite.exists_notMem_finset l.toFinset
      exact ⟨a, fun hused => ha (List.mem_toFinset.mpr (hl a hused))⟩
    rw [dif_pos hfree]
    exact hfree.choose_spec

/-- A pool without the section. -/
def emptyPool (answers : List Bool) : Pool :=
  { data := fun _ => none
    next := fun _ => none
    entry := fun _ => none
    key := fun _ => none
    value := fun _ => none
    record := fun _ => none
    other := fun _ => none
    entries := none
    answers }

theorem held_emptyPool (answers : List Bool) : Held (emptyPool answers) [] [] := by
  refine .inr ⟨rfl, rfl, ⟨.nil fun _ => rfl, .nil fun _ => rfl, .nil fun _ => rfl, .nil fun _ => rfl, .nil fun _ => rfl, [], ?_⟩⟩
  exact fun a ha => absurd rfl ha

/-- A phone, with a link key of one byte 16 times. -/
def phone (key : UInt8) : BtifDeviceRecord := ⟨Vector.replicate 6 1, 1, Vector.replicate 16 key, 0, 0⟩

/-- A pool with room for the section and an entry, and then the answers. -/
def roomyPool (answers : List Bool) : Pool := emptyPool (true :: (List.replicate 8 true ++ answers))

theorem phone_added (answers : List Bool) :
    ∃ c s, step someFree ⟨0, 0⟩ (.add (phone 1) false, true) (roomyPool answers) = some s ∧ Rep s [c] [] ∧
      c.device = newDevice ⟨0, 0⟩ (phone 1) none ∧ s.answers = answers := by
  obtain ⟨c, s, hadd, hrep, hdevice, hanswers⟩ := (held_emptyPool (true :: (List.replicate 8 true ++ answers))).adds_run
    someFree ⟨0, 0⟩ (Nat.zero_le _) (Option.some_ne_none (phone 1)).symm (fun h => absurd h Bool.false_ne_true)
    (fun h => Bool.false_ne_true h.1) rfl
  refine ⟨c, s, ?_, hrep, hdevice, hanswers⟩
  rw [step, perform, roomyPool, hadd]
  rfl

theorem pairing_list_runs_phone :
    ∃ s, Run (step someFree ⟨0, 0⟩) (fun e s => Fits s e.1) (fun s => Held s [] []) s [(.add (phone 1) false, true)] ∧
      ∃ cells, Held s cells [] ∧ cells.map Cell.device = [newDevice ⟨0, 0⟩ (phone 1) none] := by
  obtain ⟨c, s, hstep, _⟩ := phone_added []
  have hfits : Fits (roomyPool []) (.add (phone 1) false) :=
    .inr ⟨fun h => absurd h Bool.false_ne_true, fun _ => ⟨List.prefix_append _ _, fun h => Bool.false_ne_true h.1⟩⟩
  have hstart : Run (step someFree ⟨0, 0⟩) (fun e s => Fits s e.1) (fun s => Held s [] []) (roomyPool []) [] :=
    .nil (held_emptyPool _)
  have hrun := hstart.snoc hfits hstep
  obtain ⟨⟨cells, hheld, _, _, _, hdevices⟩, _⟩ := pairing_list_runs someFree ⟨0, 0⟩ (Nat.zero_le _) hrun
  exact ⟨s, hrun, cells, hheld, hdevices⟩

/-- The phone is paired again with another link key when the pool has no space for a record: its
own old record makes room, and then there is no head to compare with. -/
theorem phone_paired_again :
    ∃ s, Run (step someFree ⟨0, 0⟩) (fun _ _ => True) (fun s => Held s [] []) s [(.add (phone 1) false, true)] ∧
      perform someFree ⟨0, 0⟩ (.add (phone 2) true) s = none := by
  obtain ⟨c, s, hstep, hrep, hdevice, hanswers⟩ := phone_added [true]
  have hstart : Run (step someFree ⟨0, 0⟩) (fun _ _ => True) (fun s => Held s [] []) (roomyPool [true]) [] :=
    .nil (held_emptyPool _)
  refine ⟨s, hstart.snoc trivial hstep, ?_⟩
  refine hrep.add_faults someFree ⟨0, 0⟩ ?_ ?_ hanswers
  · rw [Cell.addr, hdevice]
    rfl
  · rw [hdevice]
    decide

end NvRecord.Legacy
