import LittleBuddy.NvRecord.LegacyList
/-!
# Runs of the pairing list in the pool

What the functions on the list do to the devices that it holds.
-/
open Blocks LinkedPool NvRecord.Bt

namespace NvRecord.Legacy

/-- The blocks of one device: its node, entry, key, value and record. -/
structure Cell where
  node : Addr
  entry : Addr
  key : Addr
  value : Addr
  record : Addr
  device : Device

/-- The key of the device. -/
def Cell.addr (c : Cell) : BdAddr := c.device.record.bdAddr

/-- The blocks of the pool are those of the cells, and the loose records. -/
structure Owned (s : Pool) (cells : List Cell) (loose : List (Addr × Device)) : Prop where
  data : Holds s.data Cell.node Cell.entry cells
  entry : Holds s.entry Cell.entry (fun c => (c.key, c.value)) cells
  key : Holds s.key Cell.key Cell.addr cells
  value : Holds s.value Cell.value Cell.record cells
  record : Holds s.record Prod.fst Prod.snd (cells.map (fun c => (c.record, c.device)) ++ loose)
  other : ∃ l : List Addr, ∀ a, s.other a ≠ none → a ∈ l

/-- The cells are linked from the head on, one for each address. -/
structure Linked (s : Pool) (cells : List Cell) (loose : List (Addr × Device)) : Prop extends Owned s cells loose where
  head : ∃ list, s.entries = some list ∧ list.head = (cells.map Cell.node).head?
  chain : Chain s.next (cells.map Cell.node).head? (cells.map Cell.node)
  distinct : (cells.map Cell.addr).Nodup
  length_le : cells.length ≤ poolWords

/-- The list of the cells. -/
def listOf (cells : List Cell) : ListExt := ⟨(cells.map Cell.node).head?, (cells.map Cell.node).getLast?, cells.length⟩

/-- The section is there, and its list holds the cells. -/
structure Rep (s : Pool) (cells : List Cell) (loose : List (Addr × Device)) : Prop extends Linked s cells loose where
  entries : s.entries = some (listOf cells)

section Find

variable {s : Pool} {cells l₁ l₂ : List Cell} {loose : List (Addr × Device)} {c : Cell} {key : BdAddr} {fuel : Nat}

theorem dataOf_run {node entry : Addr} (h : s.data node = some entry) : dataOf node s = some (entry, s) := by
  rw [dataOf, h]
  rfl

theorem nextOf_run {node entry : Addr} (h : s.data node = some entry) : nextOf node s = some (s.next node, s) := by
  rw [nextOf, h]
  rfl

theorem entryOf_run {entry : Addr} {kv : Addr × Addr} (h : s.entry entry = some kv) : entryOf entry s = some (kv, s) := by
  rw [entryOf, h]
  rfl

theorem keyOf_run {k : Addr} (h : s.key k = some key) : keyOf k s = some (key, s) := by
  rw [keyOf, h]
  rfl

theorem valueOf_run {value record : Addr} (h : s.value value = some record) : valueOf value s = some (record, s) := by
  rw [valueOf, h]
  rfl

theorem recordOf_run {record : Addr} {d : Device} (h : s.record record = some d) : recordOf record s = some (d, s) := by
  rw [recordOf, h]
  rfl

namespace Owned

/-- A node's entry and its key are read. -/
theorem read_key {β : Type} (h : Owned s cells loose) (hc : c ∈ cells) (q : Addr → Addr × Addr → BdAddr → M β) :
    (dataOf c.node >>= fun entry => entryOf entry >>= fun kv => keyOf kv.1 >>= fun k => q entry kv k) s =
      q c.entry (c.key, c.value) c.addr s := by
  rw [bind_run (dataOf_run (h.data.read hc)), bind_run (entryOf_run (h.entry.read hc)), bind_run (keyOf_run (h.key.read hc))]

theorem entryFind_run (h : Owned s cells loose) (hmem : ∀ c ∈ l₂, c ∈ cells)
    (hchain : Chain s.next (l₂.map Cell.node).head? (l₂.map Cell.node)) (hfuel : l₂.length ≤ fuel) :
    nvrecEntryFind key fuel (l₂.map Cell.node).head? s = some ((l₂.find? fun c => c.addr = key).map Cell.entry, s) := by
  induction l₂ generalizing fuel with
  | nil => cases fuel <;> rfl
  | cons c l₂ ih =>
    have hc := hmem c List.mem_cons_self
    cases fuel with
    | zero => exact absurd hfuel (Nat.not_succ_le_zero _)
    | succ fuel =>
      rw [List.map_cons, List.head?_cons, nvrecEntryFind, h.read_key hc fun entry _ k =>
        if k = key then pure (some entry) else nextOf c.node >>= nvrecEntryFind key fuel, List.find?_cons]
      by_cases hkey : c.addr = key
      · simp only [hkey, if_true, decide_true]
        rfl
      · have hnext : s.next c.node = (l₂.map Cell.node).head? := Chain.head_eq hchain.2
        simp only [hkey, if_false, decide_false]
        rw [bind_run (nextOf_run (h.data.read hc)), hnext]
        refine ih (fun c' hc' => hmem c' (List.mem_cons_of_mem _ hc')) ?_ (Nat.le_of_succ_le_succ hfuel)
        rw [← hnext]
        exact hchain.2

end Owned

theorem Linked.entryFind_run (h : Linked s cells loose) :
    nvrecEntryFind key poolWords (cells.map Cell.node).head? s = some ((cells.find? fun c => c.addr = key).map Cell.entry, s) :=
  h.toOwned.entryFind_run (fun _ hc => hc) h.chain h.length_le

/-- The record of the first cell with the key. -/
theorem Linked.getInt_run (h : Linked s cells loose) :
    nvrecConfigGetInt key s = some ((cells.find? fun c => c.addr = key).map Cell.record, s) := by
  obtain ⟨list, hentries, hhead⟩ := h.head
  rw [nvrecConfigGetInt, bind_run (rfl : (get : M Pool) s = some (s, s)), hentries]
  simp only
  rw [hhead, bind_run h.entryFind_run]
  cases hfind : cells.find? fun c => c.addr = key with
  | none => rfl
  | some c =>
    have hc := List.mem_of_find?_eq_some hfind
    simp only [Option.map_some]
    rw [bind_run (entryOf_run (h.entry.read hc)), bind_run (valueOf_run (h.value.read hc))]
    rfl

/-- Without the section. -/
theorem getInt_none (h : s.entries = none) : nvrecConfigGetInt key s = some (none, s) := by
  rw [nvrecConfigGetInt, bind_run (rfl : (get : M Pool) s = some (s, s)), h]
  rfl

/-- A cell is the only one with its address. -/
theorem Linked.find_middle (h : Linked s (l₁ ++ c :: l₂) loose) : (l₁ ++ c :: l₂).find? (fun c' => c'.addr = c.addr) = some c := by
  have hdistinct := h.distinct
  rw [List.map_append, List.map_cons, List.nodup_middle, List.nodup_cons] at hdistinct
  have hnone : l₁.find? (fun c' => c'.addr = c.addr) = none := by
    refine List.find?_eq_none.mpr fun c' hc' heq => hdistinct.1 ?_
    rw [← of_decide_eq_true heq]
    exact List.mem_append_left _ (List.mem_map_of_mem hc')
  rw [List.find?_append, hnone, Option.none_or, List.find?_cons]
  simp

end Find

/-! ## Deleting -/

section Delete

variable {s : Pool} {cells l₁ l₂ : List Cell} {loose : List (Addr × Device)} {b c : Cell} {key : BdAddr}

/-- The pool without the cell's record and entry, -/
def freedEntry (s : Pool) (c : Cell) : Pool :=
  { s with
    record := Function.update s.record c.record none
    key := Function.update s.key c.key none
    value := Function.update s.value c.value none
    entry := Function.update s.entry c.entry none }

/-- and without its node. -/
def freed (s : Pool) (c : Cell) : Pool := { freedEntry s c with data := Function.update s.data c.node none }

theorem Owned.freed (h : Owned s (l₁ ++ c :: l₂) loose) : Owned (freed s c) (l₁ ++ l₂) loose where
  data := h.data.free
  entry := h.entry.free
  key := h.key.free
  value := h.value.free
  record := by
    have hrecord := h.record
    rw [List.map_append, List.map_cons, List.append_assoc, List.cons_append] at hrecord
    rw [List.map_append, List.append_assoc]
    exact hrecord.free
  other := h.other

theorem Owned.read_record (h : Owned s cells loose) (hc : c ∈ cells) : s.record c.record = some c.device :=
  h.record.read (List.mem_append_left _ (List.mem_map_of_mem (f := fun c : Cell => (c.record, c.device)) hc))

theorem Linked.freeEntryOf_run (h : Linked s (l₁ ++ c :: l₂) loose) : freeEntryOf c.node s = some ((), freedEntry s c) := by
  have hc : c ∈ l₁ ++ c :: l₂ := List.mem_append_right _ List.mem_cons_self
  rw [freeEntryOf, h.toOwned.read_key hc fun entry _ k =>
    nvrecConfigGetInt k >>= fun record => freeRecord record >>= fun _ => nvrecEntryFree entry, bind_run h.getInt_run,
    h.find_middle, Option.map_some]
  have hrecord : freeRecord (some c.record) s = some ((), { s with record := Function.update s.record c.record none }) := by
    rw [freeRecord, Option.bind_some, h.toOwned.read_record hc]
    rfl
  rw [bind_run hrecord, nvrecEntryFree]
  simp only [h.entry.read hc, h.key.read hc, h.value.read hc]
  rfl

theorem freeNode_run {node entry : Addr} (h : s.data node = some entry) :
    freeNode node s = some ((), { s with data := Function.update s.data node none }) := by
  rw [freeNode, h]
  rfl

theorem Owned.node_ne (h : Owned s (l₁ ++ c :: l₂) loose) (hb : b ∈ l₁ ++ l₂) : b.node ≠ c.node := by
  have hnodup := h.data.nodup
  rw [List.map_append, List.map_cons, List.nodup_middle, List.nodup_cons, ← List.map_append] at hnodup
  intro heq
  exact hnodup.1 (heq ▸ List.mem_map_of_mem hb)

theorem Linked.distinct_left (h : Linked s (l₁ ++ c :: l₂) loose) : ((l₁ ++ l₂).map Cell.addr).Nodup := by
  have hdistinct := h.distinct
  rw [List.map_append, List.map_cons, List.nodup_middle, List.nodup_cons, ← List.map_append] at hdistinct
  exact hdistinct.2

theorem Linked.addr_ne (h : Linked s (l₁ ++ c :: l₂) loose) (hb : b ∈ l₁ ++ l₂) : b.addr ≠ c.addr := by
  have hdistinct := h.distinct
  rw [List.map_append, List.map_cons, List.nodup_middle, List.nodup_cons, ← List.map_append] at hdistinct
  intro heq
  exact hdistinct.1 (heq ▸ List.mem_map_of_mem hb)

theorem Linked.length_left (h : Linked s (l₁ ++ c :: l₂) loose) : (l₁ ++ l₂).length ≤ poolWords := by
  have hlength := h.length_le
  rw [List.length_append, List.length_cons] at hlength
  rw [List.length_append]
  omega

/-- The list behind a deletion. -/
theorem Linked.rep_freed {next : Addr → Option Addr} (h : Linked s (l₁ ++ c :: l₂) loose)
    (hchain : Chain next ((l₁ ++ l₂).map Cell.node).head? ((l₁ ++ l₂).map Cell.node)) :
    Rep { freed s c with next, entries := some (listOf (l₁ ++ l₂)) } (l₁ ++ l₂) loose where
  data := h.toOwned.freed.data
  entry := h.toOwned.freed.entry
  key := h.toOwned.freed.key
  value := h.toOwned.freed.value
  record := h.toOwned.freed.record
  other := h.other
  head := ⟨_, rfl, rfl⟩
  chain := hchain
  distinct := h.distinct_left
  length_le := h.length_left
  entries := rfl

theorem Rep.theEntries_run (h : Rep s cells loose) : theEntries s = some (listOf cells, s) := by
  rw [theEntries, h.entries]
  rfl

/-- `config_entries_ddbdev_delete_head` takes the oldest device out. -/
theorem Rep.deleteHead_run (h : Rep s (c :: l₂) loose) :
    ∃ s', ddbdevDeleteHead s = some ((), s') ∧ Rep s' l₂ loose ∧ s'.answers = s.answers := by
  have hlinked : Linked s ([] ++ c :: l₂) loose := h.toLinked
  have hnext : s.next c.node = (l₂.map Cell.node).head? := Chain.head_eq h.chain.2
  have hchain : Chain s.next (l₂.map Cell.node).head? (l₂.map Cell.node) := hnext ▸ h.chain.2
  refine ⟨{ freed s c with entries := some (listOf l₂) }, ?_, hlinked.rep_freed hchain, rfl⟩
  have hdata : (freedEntry s c).data c.node = some c.entry := h.data.read List.mem_cons_self
  have hends : (if (listOf (c :: l₂)).length = 1 then (pure (none, none) : M (Option Addr × Option Addr))
      else nextOf c.node >>= fun next => pure (next, (listOf (c :: l₂)).tail)) (freedEntry s c) =
        some (((listOf l₂).head, (listOf l₂).tail), freedEntry s c) := by
    cases l₂ with
    | nil => rfl
    | cons d l₂ =>
      rw [if_neg (show ¬(listOf (c :: d :: l₂)).length = 1 by simp [listOf]), bind_run (nextOf_run hdata)]
      change some ((s.next c.node, _), _) = _
      rw [hnext]
      simp only [listOf, List.map_cons, List.getLast?_cons_cons]
  rw [ddbdevDeleteHead, bind_run h.theEntries_run]
  change (freeEntryOf c.node >>= _) s = _
  rw [bind_run hlinked.freeEntryOf_run, bind_run hends, bind_run (freeNode_run hdata)]
  simp only [setEntries, listOf, List.length_cons, Nat.add_sub_cancel]
  rfl

/-- On an empty list it does nothing. -/
theorem Rep.deleteHead_nil (h : Rep s [] loose) : ddbdevDeleteHead s = some ((), s) := by
  rw [ddbdevDeleteHead, bind_run h.theEntries_run]
  rfl

theorem setNext_run {node entry : Addr} {next : Option Addr} (h : s.data node = some entry) :
    setNext node next s = some ((), { s with next := Function.update s.next node next }) := by
  rw [setNext, h]
  rfl

/-- So many steps from the head. -/
theorem Owned.advance_run (h : Owned s cells loose) (hmem : ∀ c ∈ l₁ ++ b :: l₂, c ∈ cells)
    (hchain : Chain s.next ((l₁ ++ b :: l₂).map Cell.node).head? ((l₁ ++ b :: l₂).map Cell.node)) :
    listAdvance l₁.length ((l₁ ++ b :: l₂).map Cell.node).head? s = some (b.node, s) := by
  induction l₁ with
  | nil => rfl
  | cons c l₁ ih =>
    have hc := h.data.read (hmem c List.mem_cons_self)
    have hnext : s.next c.node = ((l₁ ++ b :: l₂).map Cell.node).head? := Chain.head_eq hchain.2
    rw [List.cons_append, List.map_cons, List.head?_cons, List.length_cons, listAdvance, bind_run (nextOf_run hc), hnext]
    exact ih (fun c' hc' => hmem c' (List.mem_cons_of_mem _ hc')) (hnext ▸ hchain.2)

theorem next_node {l : List Cell} (h : Chain s.next (cells.map Cell.node).head? (cells.map Cell.node))
    (hcells : cells = l₁ ++ b :: l) : s.next b.node = (l.map Cell.node).head? := by
  subst hcells
  have happend : (l₁ ++ b :: l).map Cell.node = (l₁ ++ [b]).map Cell.node ++ l.map Cell.node := by simp
  rw [happend] at h
  exact Chain.head_eq (h.behind (a := b.node) (by simp))

/-- `config_entries_ddbdev_delete_tail` takes the latest device out, where there is another one. -/
theorem Rep.deleteTail_run (h : Rep s (l₁ ++ [b, c]) loose) :
    ∃ s', ddbdevDeleteTail s = some ((), s') ∧ Rep s' (l₁ ++ [b]) loose ∧ s'.answers = s.answers := by
  -- the length is counted down first; the list is found by its head all the same
  obtain ⟨s₁, hs₁⟩ : ∃ s₁, s₁ = { s with entries := some ⟨(listOf (l₁ ++ [b, c])).head, (listOf (l₁ ++ [b, c])).tail,
    (listOf (l₁ ++ [b, c])).length - 1⟩ } := ⟨_, rfl⟩
  have hall : Linked s₁ (l₁ ++ [b, c]) loose := by
    rw [hs₁]
    exact ⟨⟨h.data, h.entry, h.key, h.value, h.record, h.other⟩, ⟨_, rfl, rfl⟩, h.chain, h.distinct, h.length_le⟩
  have hlinked : Linked s₁ ((l₁ ++ [b]) ++ [c]) loose := by
    rw [List.append_assoc]
    exact hall
  have hb : s₁.data b.node = some b.entry := hall.data.read_middle
  have hc : s₁.data c.node = some c.entry := hlinked.data.read_middle
  have hnext : s₁.next b.node = some c.node := next_node hall.chain rfl
  have hadvance : listAdvance ((listOf (l₁ ++ [b, c])).length - 1 - 1) (listOf (l₁ ++ [b, c])).head s₁ = some (b.node, s₁) := by
    have hlength : (listOf (l₁ ++ [b, c])).length - 1 - 1 = l₁.length := by simp [listOf]
    rw [hlength]
    exact hall.toOwned.advance_run (fun _ hc => hc) hall.chain
  have hchain := hlinked.chain
  rw [List.map_append] at hchain
  have hcut := (hchain.cut (a := b.node) (by simp)).1
  rw [hcut.head_eq] at hcut
  have hrep := hlinked.rep_freed (by rw [List.append_nil]; exact hcut)
  rw [List.append_nil] at hrep
  have hlist : listOf (l₁ ++ [b]) = ⟨(listOf (l₁ ++ [b, c])).head, some b.node, (listOf (l₁ ++ [b, c])).length - 1⟩ := by
    rw [listOf, ListExt.mk.injEq]
    refine ⟨?_, by simp, by simp [listOf]⟩
    cases l₁ <;> rfl
  refine ⟨_, ?_, hrep, by rw [hs₁]; rfl⟩
  have hset : setEntries ⟨(listOf (l₁ ++ [b, c])).head, (listOf (l₁ ++ [b, c])).tail, (listOf (l₁ ++ [b, c])).length - 1⟩ s =
      some ((), s₁) := by
    rw [hs₁]
    rfl
  rw [ddbdevDeleteTail, bind_run h.theEntries_run, bind_run hset, bind_run hadvance, bind_run (nextOf_run hb), hnext]
  simp only
  rw [bind_run hlinked.freeEntryOf_run, bind_run (setNext_run (s := freedEntry s₁ c) hb),
    bind_run (freeNode_run (s := { freedEntry s₁ c with next := _ }) hc), hlist]
  rfl

/-- The node with the key, and how many there are in front of it. -/
theorem Owned.position_run {fuel : Nat} (pos : Nat) (h : Owned s cells loose) (hmem : ∀ c' ∈ l₁ ++ c :: l₂, c' ∈ cells)
    (hchain : Chain s.next ((l₁ ++ c :: l₂).map Cell.node).head? ((l₁ ++ c :: l₂).map Cell.node))
    (hfront : ∀ c' ∈ l₁, c'.addr ≠ c.addr) (hfuel : l₁.length < fuel) :
    ddbdevPosition c.addr fuel pos ((l₁ ++ c :: l₂).map Cell.node).head? s = some (some (c.node, pos + l₁.length), s) := by
  induction l₁ generalizing pos fuel with
  | nil =>
    obtain ⟨fuel, rfl⟩ : ∃ m, fuel = m + 1 := ⟨fuel - 1, (Nat.succ_pred_eq_of_pos hfuel).symm⟩
    have hc := hmem c List.mem_cons_self
    rw [List.nil_append, List.map_cons, List.head?_cons, ddbdevPosition, h.read_key hc fun _ _ k =>
      if k = c.addr then pure (some (c.node, pos)) else nextOf c.node >>= ddbdevPosition c.addr fuel (pos + 1), if_pos rfl]
    rfl
  | cons d l₁ ih =>
    obtain ⟨fuel, rfl⟩ : ∃ m, fuel = m + 1 := ⟨fuel - 1, (Nat.succ_pred_eq_of_pos (Nat.zero_lt_of_lt hfuel)).symm⟩
    have hd := hmem d List.mem_cons_self
    have hnext : s.next d.node = ((l₁ ++ c :: l₂).map Cell.node).head? := Chain.head_eq hchain.2
    rw [List.cons_append, List.map_cons, List.head?_cons, ddbdevPosition, h.read_key hd fun _ _ k =>
      if k = c.addr then pure (some (d.node, pos)) else nextOf d.node >>= ddbdevPosition c.addr fuel (pos + 1),
      if_neg (hfront d List.mem_cons_self), bind_run (nextOf_run (h.data.read hd)), hnext,
      ih (pos + 1) (fun c' hc' => hmem c' (List.mem_cons_of_mem _ hc')) (hnext ▸ hchain.2)
        (fun c' hc' => hfront c' (List.mem_cons_of_mem _ hc')) (Nat.lt_of_succ_lt_succ hfuel), List.length_cons]
    have hpos : pos + 1 + l₁.length = pos + (l₁.length + 1) := by omega
    rw [hpos]

/-- No node has the key. -/
theorem Owned.position_none {pos fuel : Nat} (h : Owned s cells loose) (hmem : ∀ c' ∈ l₁, c' ∈ cells)
    (hchain : Chain s.next (l₁.map Cell.node).head? (l₁.map Cell.node)) (hnone : ∀ c' ∈ l₁, c'.addr ≠ key)
    (hfuel : l₁.length ≤ fuel) : ddbdevPosition key fuel pos (l₁.map Cell.node).head? s = some (none, s) := by
  induction l₁ generalizing pos fuel with
  | nil => cases fuel <;> rfl
  | cons d l₁ ih =>
    obtain ⟨fuel, rfl⟩ : ∃ m, fuel = m + 1 := ⟨fuel - 1, (Nat.succ_pred_eq_of_pos (Nat.zero_lt_of_lt hfuel)).symm⟩
    have hd := hmem d List.mem_cons_self
    have hnext : s.next d.node = (l₁.map Cell.node).head? := Chain.head_eq hchain.2
    rw [List.map_cons, List.head?_cons, ddbdevPosition, h.read_key hd fun _ _ k =>
      if k = key then pure (some (d.node, pos)) else nextOf d.node >>= ddbdevPosition key fuel (pos + 1),
      if_neg (hnone d List.mem_cons_self), bind_run (nextOf_run (h.data.read hd)), hnext]
    exact ih (fun c' hc' => hmem c' (List.mem_cons_of_mem _ hc')) (hnext ▸ hchain.2)
      (fun c' hc' => hnone c' (List.mem_cons_of_mem _ hc')) (Nat.le_of_succ_le_succ hfuel)

/-- `config_entries_ddbdev_delete` takes a device between two others out. -/
theorem Rep.delete_run {a d : Cell} {l : List Cell} (h : Rep s (l₁ ++ a :: c :: d :: l) loose) :
    ∃ s', ddbdevDelete c.addr s = some ((), s') ∧ Rep s' (l₁ ++ a :: d :: l) loose ∧ s'.answers = s.answers := by
  have hlinked : Linked s ((l₁ ++ [a]) ++ c :: d :: l) loose := by
    rw [List.append_assoc]
    exact h.toLinked
  have hfront : ∀ c' ∈ l₁ ++ [a], c'.addr ≠ c.addr := fun c' hc' => hlinked.addr_ne (List.mem_append_left _ hc')
  have hlength : (l₁ ++ [a]).length < poolWords := by
    have hle := hlinked.length_le
    rw [List.length_append, List.length_cons] at hle
    omega
  have ha : s.data a.node = some a.entry := h.data.read_middle
  have hc : s.data c.node = some c.entry := hlinked.data.read_middle
  have hposition : ddbdevPosition c.addr poolWords 0 (listOf (l₁ ++ a :: c :: d :: l)).head s =
      some (some (c.node, l₁.length + 1), s) := by
    have hfound := hlinked.toOwned.position_run 0 (fun _ hc' => hc') hlinked.chain hfront hlength
    rw [List.append_assoc, Nat.zero_add, List.length_append] at hfound
    exact hfound
  have hadvance : listAdvance (l₁.length + 1 - 1) (listOf (l₁ ++ a :: c :: d :: l)).head s = some (a.node, s) :=
    h.toOwned.advance_run (fun _ hc' => hc') h.chain
  have hnext : s.next a.node = some c.node := next_node h.chain rfl
  have hchain := hlinked.chain
  rw [List.map_append, List.map_cons] at hchain
  have hremove := hchain.remove (a := a.node) (by simp)
  rw [hremove.head_eq, ← List.map_append] at hremove
  have hrep := hlinked.rep_freed hremove
  rw [List.append_assoc, List.singleton_append] at hrep
  have hlist : listOf (l₁ ++ a :: d :: l) = { listOf (l₁ ++ a :: c :: d :: l) with length := (listOf (l₁ ++ a :: c :: d :: l)).length - 1 } := by
    rw [listOf, listOf, ListExt.mk.injEq]
    refine ⟨?_, by simp, by simp⟩
    cases l₁ <;> rfl
  have hdata : (freedEntry s c).data a.node = some a.entry := ha
  have hfreed : freeNode c.node (freedEntry s c) = some ((), freed s c) := freeNode_run (show (freedEntry s c).data c.node = some c.entry from hc)
  have hbehind : (freedEntry s c).next a.node = some c.node := hnext
  have hne : a.node ≠ c.node := hlinked.toOwned.node_ne (by simp)
  have hleft : (freed s c).data a.node = some a.entry := (Function.update_of_ne hne _ _).trans ha
  refine ⟨_, ?_, hrep, rfl⟩
  rw [ddbdevDelete, bind_run h.theEntries_run, bind_run hposition]
  simp only
  rw [bind_run (nextOf_run hc), bind_run hadvance, bind_run hlinked.freeEntryOf_run, bind_run (nextOf_run hdata), hbehind]
  simp only
  rw [bind_run hfreed, bind_run (setNext_run hleft), setEntries]
  simp only [hlist]
  rfl

theorem Rep.delete_none (h : Rep s cells loose) (hnone : ∀ c ∈ cells, c.addr ≠ key) : ddbdevDelete key s = some ((), s) := by
  have hposition : ddbdevPosition key poolWords 0 (listOf cells).head s = some (none, s) :=
    h.toOwned.position_none (fun _ hc => hc) h.chain hnone h.length_le
  rw [ddbdevDelete, bind_run h.theEntries_run, bind_run hposition]
  rfl

theorem Rep.isHead_run (h : Rep s (c :: l₂) loose) : ddbdevIsHead key s = some (decide (c.addr = key), s) := by
  rw [ddbdevIsHead, bind_run h.theEntries_run]
  exact h.toOwned.read_key List.mem_cons_self fun _ _ k => pure (decide (k = key))

theorem Owned.lastEntry_run {fuel : Nat} {last : Option Addr} (h : Owned s cells loose) (hmem : ∀ c' ∈ l₁ ++ [c], c' ∈ cells)
    (hchain : Chain s.next ((l₁ ++ [c]).map Cell.node).head? ((l₁ ++ [c]).map Cell.node)) (hfuel : l₁.length < fuel) :
    lastEntry fuel last ((l₁ ++ [c]).map Cell.node).head? s = some (c.entry, s) := by
  induction l₁ generalizing fuel last with
  | nil =>
    obtain ⟨fuel, rfl⟩ : ∃ m, fuel = m + 1 := ⟨fuel - 1, (Nat.succ_pred_eq_of_pos hfuel).symm⟩
    have hc := h.data.read (hmem c List.mem_cons_self)
    have hnext : s.next c.node = none := hchain.2
    rw [List.nil_append, List.map_cons, List.head?_cons, lastEntry, bind_run (dataOf_run hc), bind_run (nextOf_run hc), hnext]
    cases fuel <;> rfl
  | cons d l₁ ih =>
    obtain ⟨fuel, rfl⟩ : ∃ m, fuel = m + 1 := ⟨fuel - 1, (Nat.succ_pred_eq_of_pos (Nat.zero_lt_of_lt hfuel)).symm⟩
    have hd := h.data.read (hmem d List.mem_cons_self)
    have hnext : s.next d.node = ((l₁ ++ [c]).map Cell.node).head? := Chain.head_eq hchain.2
    rw [List.cons_append, List.map_cons, List.head?_cons, lastEntry, bind_run (dataOf_run hd), bind_run (nextOf_run hd), hnext]
    exact ih (fun c' hc' => hmem c' (List.mem_cons_of_mem _ hc')) (hnext ▸ hchain.2) (Nat.lt_of_succ_lt_succ hfuel)

theorem Rep.isTail_run (key : BdAddr) (h : Rep s cells loose) (hlast : cells.getLast? = some c) :
    ddbdevIsTail key s = some (decide (c.addr = key), s) := by
  obtain ⟨l₁, rfl⟩ := List.getLast?_eq_some_iff.mp hlast
  have hlength := h.length_le
  rw [List.length_append, List.length_singleton] at hlength
  have hlast : lastEntry poolWords none (listOf (l₁ ++ [c])).head s = some (c.entry, s) :=
    h.toOwned.lastEntry_run (fun _ hc => hc) h.chain hlength
  have hc : c ∈ l₁ ++ [c] := List.mem_append_right _ (List.mem_singleton_self c)
  rw [ddbdevIsTail, bind_run h.theEntries_run, bind_run hlast, bind_run (entryOf_run (h.entry.read hc)),
    bind_run (keyOf_run (h.key.read hc))]
  rfl

/-- On an empty list there is no head to look at. -/
theorem Rep.valueDelete_nil (key : BdAddr) (h : Rep s [] loose) : specificEntryValueDelete key s = none := by
  have hhead : ddbdevIsHead key s = none := by
    rw [ddbdevIsHead, bind_run h.theEntries_run]
    rfl
  rw [specificEntryValueDelete, bind_fault hhead]

theorem Linked.others (h : Linked s (l₁ ++ c :: l₂) loose) :
    (l₁ ++ c :: l₂).filter (fun c' => c'.addr ≠ c.addr) = l₁ ++ l₂ := by
  have hrest : (l₁ ++ l₂).filter (fun c' => c'.addr ≠ c.addr) = l₁ ++ l₂ :=
    List.filter_eq_self.mpr fun c' hc' => decide_eq_true (h.addr_ne hc')
  rw [List.filter_append] at hrest
  rw [List.filter_append, List.filter_cons, if_neg (by simp), hrest]

/-- `config_specific_entry_value_delete` takes the device out wherever it is. -/
theorem Rep.valueDelete_run (key : BdAddr) (h : Rep s cells loose) (hne : cells ≠ []) :
    ∃ s', specificEntryValueDelete key s = some ((), s') ∧ Rep s' (cells.filter fun c => c.addr ≠ key) loose ∧
      s'.answers = s.answers := by
  rw [specificEntryValueDelete]
  by_cases hkey : ∃ c ∈ cells, c.addr = key
  · obtain ⟨c, hc, rfl⟩ := hkey
    obtain ⟨l₁, l₂, rfl⟩ := List.append_of_mem hc
    rw [h.others]
    cases l₁ with
    | nil =>
      rw [bind_run h.isHead_run, decide_eq_true rfl, if_pos rfl]
      exact h.deleteHead_run
    | cons a l₁ =>
      have hhead : a.addr ≠ c.addr := h.addr_ne (List.mem_append_left _ List.mem_cons_self)
      have hlinked := h.toLinked
      rw [List.cons_append] at h
      rw [bind_run h.isHead_run, decide_eq_false hhead, if_neg Bool.false_ne_true]
      rw [← List.cons_append] at h
      -- what is in front of the device
      obtain ⟨l, b, hl⟩ := (List.eq_nil_or_concat' (a :: l₁)).resolve_left (List.cons_ne_nil _ _)
      rw [hl, List.append_assoc, List.singleton_append] at h
      rw [hl]
      cases l₂ with
      | nil =>
        rw [bind_run (h.isTail_run c.addr (c := c) (by simp)), decide_eq_true rfl, if_pos rfl, List.append_nil]
        exact h.deleteTail_run
      | cons d l₂ =>
        obtain ⟨e, he⟩ : ∃ e, (d :: l₂).getLast? = some e := ⟨_, List.getLast?_eq_some_getLast (List.cons_ne_nil _ _)⟩
        have hlast : (l ++ b :: c :: d :: l₂).getLast? = some e := by simp [List.getLast?_append, List.getLast?_cons_cons, he]
        have htail : e.addr ≠ c.addr := hlinked.addr_ne (List.mem_append_right _ (List.mem_of_getLast? he))
        rw [bind_run (h.isTail_run c.addr hlast), decide_eq_false htail, if_neg Bool.false_ne_true, List.append_assoc, List.singleton_append]
        exact h.delete_run
  · have hnone : ∀ c ∈ cells, c.addr ≠ key := fun c hc heq => hkey ⟨c, hc, heq⟩
    have hfilter : cells.filter (fun c => c.addr ≠ key) = cells :=
      List.filter_eq_self.mpr fun c hc => decide_eq_true (hnone c hc)
    obtain ⟨e, he⟩ : ∃ e, cells.getLast? = some e := ⟨_, List.getLast?_eq_some_getLast hne⟩
    have htail := h.isTail_run key he
    rw [decide_eq_false (hnone e (List.mem_of_getLast? he))] at htail
    refine ⟨s, ?_, hfilter.symm ▸ h, rfl⟩
    have hdelete := h.delete_none hnone
    cases cells with
    | nil => exact absurd rfl hne
    | cons c l =>
      rw [bind_run h.isHead_run, decide_eq_false (hnone c List.mem_cons_self), if_neg Bool.false_ne_true, bind_run htail,
        if_neg Bool.false_ne_true]
      exact hdelete

end Delete

/-! ## Adding -/

section Add

variable {s s' : Pool} {cells : List Cell} {loose : List (Addr × Device)} {c : Cell} {key : BdAddr} {answers : List Bool}
  {r : Addr} {d : Device}

theorem Owned.bounded (h : Owned s cells loose) : s.Bounded := by
  obtain ⟨others, hothers⟩ := h.other
  refine ⟨cells.map Cell.node ++ cells.map Cell.entry ++ cells.map Cell.key ++ cells.map Cell.value ++
    (cells.map (fun c => (c.record, c.device)) ++ loose).map Prod.fst ++ others, fun a ha => ?_⟩
  simp only [List.mem_append]
  rcases ha with hdata | hentry | hkey | hvalue | hrecord | hother
  · exact .inl (.inl (.inl (.inl (.inl (h.data.mem_of_ne_none hdata)))))
  · exact .inl (.inl (.inl (.inl (.inr (h.entry.mem_of_ne_none hentry)))))
  · exact .inl (.inl (.inl (.inr (h.key.mem_of_ne_none hkey))))
  · exact .inl (.inl (.inr (h.value.mem_of_ne_none hvalue)))
  · exact .inl (.inr (h.record.mem_of_ne_none hrecord))
  · exact .inr (hothers a hother)

/-- One more block. -/
theorem Pool.Bounded.grow {x : Addr} (h : s.Bounded) (hs : ∀ a, s'.InUse a → s.InUse a ∨ a = x) : s'.Bounded := by
  obtain ⟨l, hl⟩ := h
  refine ⟨x :: l, fun a ha => ?_⟩
  rcases hs a ha with hs | rfl
  · exact List.mem_cons_of_mem _ (hl a hs)
  · exact List.mem_cons_self

variable (heap : HeapMalloc)

theorem poolMalloc_run (h : s.answers = true :: answers) : poolMalloc heap s = some (some (heap.pick s), { s with answers }) := by
  rw [poolMalloc, h]

theorem cfgZmalloc_run (h : s.answers = true :: answers) : cfgZmalloc heap s = some (heap.pick s, { s with answers }) := by
  rw [cfgZmalloc, poolMalloc_run heap h]

/-- The pool with one more entry and its key and value. -/
def withEntry (s : Pool) (e k v : Addr) (key : BdAddr) (r : Addr) (answers : List Bool) : Pool :=
  { s with
    answers
    entry := Function.update s.entry e (some (k, v))
    key := Function.update s.key k (some key)
    value := Function.update s.value v (some r) }

theorem nvrecEntryNew_run (key : BdAddr) (r : Addr) (hb : s.Bounded) (h : s.answers = true :: true :: true :: answers) :
    ∃ e k v, nvrecEntryNew heap key r s = some (e, withEntry s e k v key r answers) ∧
      (withEntry s e k v key r answers).Bounded ∧ s.entry e = none ∧ s.key k = none ∧ s.value v = none := by
  obtain ⟨e, he⟩ : ∃ e, heap.pick s = e := ⟨_, rfl⟩
  obtain ⟨s₁, hs₁⟩ : ∃ s₁ : Pool, { s with
    answers := true :: true :: answers, entry := Function.update s.entry e (some (0, 0)) } = s₁ := ⟨_, rfl⟩
  have hb₁ : s₁.Bounded := by
    refine hb.grow (x := e) fun a ha => or_iff_not_imp_right.mpr fun hne => ?_
    simpa only [Pool.InUse, ← hs₁, Function.update_of_ne hne] using ha
  obtain ⟨k, hk⟩ : ∃ k, heap.pick s₁ = k := ⟨_, rfl⟩
  obtain ⟨s₂, hs₂⟩ : ∃ s₂ : Pool, { s₁ with answers := true :: answers, key := Function.update s.key k (some key) } = s₂ :=
    ⟨_, rfl⟩
  have hkeys : s₁.key = s.key := by rw [← hs₁]
  have hb₂ : s₂.Bounded := by
    refine hb₁.grow (x := k) fun a ha => or_iff_not_imp_right.mpr fun hne => ?_
    simpa only [Pool.InUse, ← hs₂, Function.update_of_ne hne, hkeys] using ha
  obtain ⟨v, hv⟩ : ∃ v, heap.pick s₂ = v := ⟨_, rfl⟩
  have hvalues : s₂.value = s.value := by rw [← hs₂, ← hs₁]
  have hfree := heap.pick_free s hb
  have hfree₁ := heap.pick_free s₁ hb₁
  have hfree₂ := heap.pick_free s₂ hb₂
  simp only [Pool.InUse, not_or, not_not, he, hk, hv, hkeys, hvalues] at hfree hfree₁ hfree₂
  refine ⟨e, k, v, ?_, ?_, hfree.2.1, hfree₁.2.2.1, hfree₂.2.2.2.1⟩
  · rw [nvrecEntryNew, bind_run (cfgZmalloc_run heap h), he, bind_run (show _ = some ((), s₁) by rw [← hs₁]),
      bind_run (cfgZmalloc_run heap (show s₁.answers = true :: true :: answers by rw [← hs₁])), hk,
      bind_run (show _ = some ((), s₂) by rw [← hs₂, hkeys]),
      bind_run (cfgZmalloc_run heap (show s₂.answers = true :: answers by rw [← hs₂])), hv]
    simp only [withEntry, ← hs₂, ← hs₁, Function.update_idem]
  · refine hb₂.grow (x := v) fun a ha => or_iff_not_imp_right.mpr fun hne => ?_
    rcases eq_or_ne a e with rfl | hae
    · refine .inr (.inl ?_)
      simp only [← hs₂, ← hs₁, Function.update_self]
      exact Option.some_ne_none _
    · simpa only [Pool.InUse, withEntry, ← hs₂, ← hs₁, Function.update_of_ne hne, Function.update_of_ne hae] using ha

/-- A node behind the list that has the cells. -/
theorem listAppendExt_run (data : Addr) (hb : s.Bounded) (h : s.answers = true :: answers) (hdata : Holds s.data Cell.node Cell.entry cells)
    (hchain : Chain s.next (cells.map Cell.node).head? (cells.map Cell.node)) :
    ∃ n next, listAppendExt heap (listOf cells) data s = some (⟨(cells.map Cell.node ++ [n]).head?, some n, cells.length + 1⟩,
        { s with answers, next, data := Function.update s.data n (some data) }) ∧ s.data n = none ∧
      Chain next (cells.map Cell.node ++ [n]).head? (cells.map Cell.node ++ [n]) := by
  have hfree := heap.pick_free s hb
  simp only [Pool.InUse, not_or, not_not] at hfree
  have hnew : heap.pick s ∉ cells.map Cell.node := by
    intro hmem
    obtain ⟨c, hc, heq⟩ := List.mem_map.mp hmem
    have := hdata.read hc
    rw [heq, hfree.1] at this
    exact absurd this.symm (Option.some_ne_none _)
  obtain ⟨n, hn⟩ : ∃ n, heap.pick s = n := ⟨_, rfl⟩
  rw [hn] at hnew hfree
  refine ⟨n, ?_⟩
  rw [listAppendExt, bind_run (poolMalloc_run heap h), hn]
  simp only
  obtain rfl | ⟨l, c, rfl⟩ := List.eq_nil_or_concat' cells
  · refine ⟨Function.update s.next n none, rfl, hfree.1, rfl, ?_⟩
    exact Function.update_self _ _ _
  · have hne : c.node ≠ n := fun heq => hnew (heq ▸ List.mem_map_of_mem (List.mem_append_right _ (List.mem_singleton_self c)))
    have hall := hchain
    rw [← List.append_nil ((l ++ [c]).map Cell.node)] at hall hnew
    have hinsert := hall.insert (a := c.node) (by simp) hnew
    rw [List.head?_nil, Function.update_comm hne, hinsert.head_eq] at hinsert
    have htail : (listOf (l ++ [c])).tail = some c.node := by simp [listOf]
    have hlast : (Function.update s.data n (some data)) c.node = some c.entry := by
      rw [Function.update_of_ne hne]
      exact hdata.read_middle
    have hhead : (listOf (l ++ [c])).head = ((l ++ [c]).map Cell.node ++ [n]).head? := by cases l <;> rfl
    refine ⟨_, ?_, hfree.1, hinsert⟩
    rw [bind_run (x := ()) rfl, htail]
    simp only
    rw [bind_run (setNext_run hlast), hhead, pure_run]
    simp only [listOf]

/-- `nvrec_config_set_string` links the loose record behind the devices. -/
theorem Rep.setStringIn_run (h : Rep s cells [(r, d)]) (hnew : ∀ c ∈ cells, c.addr ≠ d.record.bdAddr)
    (hlength : cells.length < poolWords) (hanswers : s.answers = true :: true :: true :: true :: answers) :
    ∃ c s', setStringIn heap (listOf cells) true d.record.bdAddr r s = some ((), s') ∧ Rep s' (cells ++ [c]) [] ∧
      c.device = d ∧ s'.answers = answers := by
  obtain ⟨e, k, v, hentryNew, hbounded, he, hk, hv⟩ := nvrecEntryNew_run heap d.record.bdAddr r h.bounded hanswers
  obtain ⟨n, next, happend, hn, hchain⟩ := listAppendExt_run heap e hbounded rfl
    (show Holds (withEntry s e k v d.record.bdAddr r (true :: answers)).data _ _ _ from h.data) h.chain
  obtain ⟨c, hc⟩ : ∃ c : Cell, c = ⟨n, e, k, v, r, d⟩ := ⟨_, rfl⟩
  have hfind : cells.find? (fun c => c.addr = d.record.bdAddr) = none :=
    List.find?_eq_none.mpr fun c hc heq => hnew c hc (of_decide_eq_true heq)
  have hentryFind : nvrecEntryFind d.record.bdAddr poolWords (listOf cells).head s = some (none, s) := by
    have hrun : nvrecEntryFind d.record.bdAddr poolWords (listOf cells).head s = _ := h.toLinked.entryFind_run
    rw [hfind] at hrun
    exact hrun
  refine ⟨c, { withEntry s e k v d.record.bdAddr r answers with
    next, data := Function.update s.data n (some e), entries := some (listOf (cells ++ [c])) }, ?_, ?_, by rw [hc], rfl⟩
  · rw [setStringIn, bind_run hentryFind]
    simp only
    rw [bind_run hentryNew, bind_run happend, if_pos trivial, setEntries]
    simp only [withEntry, listOf, hc, List.map_append, List.map_singleton, List.length_append, List.length_singleton,
      List.getLast?_concat]
  · subst hc
    have hfree : s.data n = none := hn
    have hdata := h.data.alloc (c := ⟨n, e, k, v, r, d⟩) hfree
    have hentry := h.entry.alloc (c := ⟨n, e, k, v, r, d⟩) he
    have hkey := h.key.alloc (c := ⟨n, e, k, v, r, d⟩) hk
    have hvalue := h.value.alloc (c := ⟨n, e, k, v, r, d⟩) hv
    refine ⟨⟨⟨hdata, hentry, hkey, hvalue, ?_, h.other⟩, ⟨_, rfl, rfl⟩, ?_, ?_, ?_⟩, rfl⟩
    · rw [List.map_append, List.append_nil]
      exact h.record
    · rw [List.map_append]
      exact hchain
    · rw [List.map_append, List.map_singleton]
      refine List.nodup_append.mpr ⟨h.distinct, List.nodup_singleton _, fun x hx y hy => ?_⟩
      obtain ⟨c, hc, rfl⟩ := List.mem_map.mp hx
      rw [List.mem_singleton.mp hy]
      exact hnew c hc
    · rw [List.length_append, List.length_singleton]
      exact hlength

/-- Another block does not concern the devices. -/
theorem Owned.withOther (h : Owned s cells loose) (a : Addr) :
    Owned { s with answers, other := Function.update s.other a (some ()) } cells loose := by
  obtain ⟨others, hothers⟩ := h.other
  refine ⟨h.data, h.entry, h.key, h.value, h.record, a :: others, fun b hb => ?_⟩
  rcases eq_or_ne b a with rfl | hne
  · exact List.mem_cons_self
  · simp only [Function.update_of_ne hne] at hb
    exact List.mem_cons_of_mem _ (hothers b hb)

theorem Owned.otherBlock_run (h : Owned s cells loose) (hanswers : s.answers = true :: answers) :
    ∃ s', otherBlock heap s = some ((), s') ∧ Owned s' cells loose ∧ s'.entries = s.entries ∧ s'.answers = answers := by
  refine ⟨_, ?_, h.withOther (heap.pick s), rfl, rfl⟩
  rw [otherBlock, bind_run (cfgZmalloc_run heap hanswers)]

/-- `nvrec_section_new`, and the node of the section. -/
theorem Owned.sectionNew_run (h : Owned s cells loose) (hanswers : s.answers = true :: true :: true :: true :: answers) :
    ∃ s', nvrecSectionNew heap s = some (true, s') ∧ Owned s' cells loose ∧ s'.answers = answers := by
  obtain ⟨s₁, hrun₁, h₁, _, hanswers₁⟩ := h.otherBlock_run heap hanswers
  obtain ⟨s₂, hrun₂, h₂, _, hanswers₂⟩ := h₁.otherBlock_run heap hanswers₁
  obtain ⟨s₃, hrun₃, h₃, _, hanswers₃⟩ := h₂.otherBlock_run heap hanswers₂
  refine ⟨_, ?_, h₃.withOther (heap.pick s₃), rfl⟩
  rw [nvrecSectionNew, bind_run hrun₁, bind_run hrun₂, bind_run hrun₃, bind_run (poolMalloc_run heap hanswers₃)]

/-- The section with the cells in its list, or no section. -/
def Held (s : Pool) (cells : List Cell) (loose : List (Addr × Device)) : Prop :=
  Rep s cells loose ∨ cells = [] ∧ s.entries = none ∧ Owned s [] loose

/-- So many blocks are allocated for an entry. -/
def entryBlocks (s : Pool) : Nat := if s.entries.isNone then 8 else 4

/-- `nvrec_config_set_int` makes the section where there is none. -/
theorem Held.setInt_run (h : Held s cells [(r, d)]) (hnew : ∀ c ∈ cells, c.addr ≠ d.record.bdAddr)
    (hlength : cells.length < poolWords) (hanswers : s.answers = List.replicate (entryBlocks s) true ++ answers) :
    ∃ c s', nvrecConfigSetInt heap d.record.bdAddr r s = some ((), s') ∧ Rep s' (cells ++ [c]) [] ∧ c.device = d ∧
      s'.answers = answers := by
  rw [nvrecConfigSetInt, bind_run (rfl : (get : M Pool) s = some (s, s))]
  rcases h with h | ⟨rfl, hentries, h⟩
  · rw [entryBlocks, h.entries] at hanswers
    rw [h.entries]
    exact h.setStringIn_run heap hnew hlength hanswers
  · rw [entryBlocks, hentries] at hanswers
    rw [hentries]
    obtain ⟨s₁, hsection, h₁, hanswers₁⟩ := h.sectionNew_run heap
      (show s.answers = true :: true :: true :: true :: (List.replicate 4 true ++ answers) from hanswers)
    have hrep : Rep { s₁ with entries := some ⟨none, none, 0⟩ } [] [(r, d)] :=
      ⟨⟨⟨h₁.data, h₁.entry, h₁.key, h₁.value, h₁.record, h₁.other⟩, ⟨_, rfl, rfl⟩, rfl, List.nodup_nil, Nat.zero_le _⟩, rfl⟩
    simp only
    rw [bind_run hsection, if_pos rfl, bind_run (show _ = some ((), { s₁ with entries := some ⟨none, none, 0⟩ }) from rfl)]
    exact hrep.setStringIn_run heap hnew hlength hanswers₁

end Add

end NvRecord.Legacy
