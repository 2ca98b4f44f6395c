import LittleBuddy.Lib.Blocks
import LittleBuddy.Lib.Chain
import LittleBuddy.NvRecord.PairedBt
/-!
# The pairing list in the pool

The section `ddbrec` of `services/nvrecord/nvrecord.c`: a singly linked list
(`list_ext.c`) of entries, each with a device address as its key and the address of a
record as its value, all of them blocks of one pool. Here are the pool and the
functions as they work on its pointers.

A function has no result where it uses a `NULL` pointer or a block that is not
allocated. Loops over the list go on for at most `poolWords` nodes.
-/
open Blocks LinkedPool NvRecord.Bt

namespace NvRecord.Legacy

/-- An address in the pool; `NULL` is `none`. -/
abbrev Addr := Nat

/-- `nvrec_btdevicerecord`. -/
structure Device where
  record : BtifDeviceRecord
  device_vol : BtdeviceVolume
  device_plf : BtdeviceProfile
  vend_id : UInt16
  vend_id_source : UInt16
  deriving DecidableEq

/-- `list_t`. -/
structure ListExt where
  head : Option Addr
  tail : Option Addr
  length : Nat

/-- The blocks of the pool, by their kinds: the nodes of the list (`data` and `next`), the entries
(`key` and `value`), the keys, the texts of the values and the records, and any others. -/
structure Pool where
  data : Addr → Option Addr
  next : Addr → Option Addr
  entry : Addr → Option (Addr × Addr)
  key : Addr → Option BdAddr
  value : Addr → Option Addr
  record : Addr → Option Device
  other : Addr → Option Unit
  /-- `entries` of the section, if there is the section. -/
  entries : Option ListExt
  /-- Whether the heap has room, for each call of `pool_malloc`. -/
  answers : List Bool

/-- There is a block at the address. -/
def Pool.InUse (s : Pool) (a : Addr) : Prop :=
  s.data a ≠ none ∨ s.entry a ≠ none ∨ s.key a ≠ none ∨ s.value a ≠ none ∨ s.record a ≠ none ∨ s.other a ≠ none

/-- There are finitely many blocks. -/
def Pool.Bounded (s : Pool) : Prop := ∃ l : List Addr, ∀ a, s.InUse a → a ∈ l

/-- `heap_malloc` gives a block that is not in use. -/
structure HeapMalloc where
  pick : Pool → Addr
  pick_free : ∀ s : Pool, s.Bounded → ¬s.InUse (pick s)

/-- A part of the program. -/
abbrev M := StateT Pool Option

/-- `DDB_RECORD_NUM`. -/
abbrev ddbRecordNum : Nat := 9

/-- `usrdata_ddblist_pool` has so many words. -/
abbrev poolWords : Nat := 1024

/-! ## The pool -/

def dataOf (node : Addr) : M Addr := fun s => (s.data node).map (·, s)

/-- `list_next_ext`. -/
def nextOf (node : Addr) : M (Option Addr) := fun s => (s.data node).map fun _ => (s.next node, s)

def entryOf (entry : Addr) : M (Addr × Addr) := fun s => (s.entry entry).map (·, s)

def keyOf (key : Addr) : M BdAddr := fun s => (s.key key).map (·, s)

def valueOf (value : Addr) : M Addr := fun s => (s.value value).map (·, s)

def recordOf (record : Addr) : M Device := fun s => (s.record record).map (·, s)

def setNext (node : Addr) (next : Option Addr) : M Unit :=
  fun s => (s.data node).map fun _ => ((), { s with next := Function.update s.next node next })

/-- `pool_free` of a node, -/
def freeNode (node : Addr) : M Unit :=
  fun s => (s.data node).map fun _ => ((), { s with data := Function.update s.data node none })

/-- of a record, -/
def freeRecord (record : Option Addr) : M Unit :=
  fun s => record.bind fun a => (s.record a).map fun _ => ((), { s with record := Function.update s.record a none })

/-- of a value, -/
def freeValue (value : Addr) : M Unit :=
  fun s => (s.value value).map fun _ => ((), { s with value := Function.update s.value value none })

/-- and `nvrec_entry_free`. -/
def nvrecEntryFree (entry : Addr) : M Unit :=
  fun s =>
    match s.entry entry with
    | none => none
    | some (k, v) =>
      match s.key k, s.value v with
      | some _, some _ =>
        some ((), { s with
          key := Function.update s.key k none
          value := Function.update s.value v none
          entry := Function.update s.entry entry none })
      | _, _ => none

/-- `nvrec_section_find` for `section_name_ddbrec`, where the section is used without a check. -/
def theEntries : M ListExt := fun s => s.entries.map (·, s)

def setEntries (list : ListExt) : M Unit := fun s => some ((), { s with entries := some list })

section Malloc

variable (heap : HeapMalloc)

/-- `pool_malloc`. -/
def poolMalloc : M (Option Addr) :=
  fun s =>
    match s.answers with
    | true :: answers => some (some (heap.pick s), { s with answers })
    | _ :: answers => some (none, { s with answers })
    | [] => some (none, s)

/-- `cfg_zmalloc` and `zmalloc_ext`, which write to the block without a check. -/
def cfgZmalloc : M Addr :=
  fun s =>
    match poolMalloc heap s with
    | some (some a, s) => some (a, s)
    | _ => none

end Malloc

/-! ## `nvrec_config.c` -/

/-- `nvrec_entry_find`, from a node on: the entry. -/
def nvrecEntryFind (key : BdAddr) : Nat → Option Addr → M (Option Addr)
  | _, none => pure none
  | 0, some _ => failure
  | fuel + 1, some node =>
    dataOf node >>= fun entry => entryOf entry >>= fun kv => keyOf kv.1 >>= fun k =>
      if k = key then pure (some entry) else nextOf node >>= nvrecEntryFind key fuel

/-- `nvrec_config_get_int`, with `none` for 0: the address of the record. -/
def nvrecConfigGetInt (key : BdAddr) : M (Option Addr) :=
  get >>= fun s =>
    match s.entries with
    | none => pure none
    | some list =>
      nvrecEntryFind key poolWords list.head >>= fun entry =>
        match entry with
        | none => pure none
        | some entry => entryOf entry >>= fun kv => valueOf kv.2 >>= fun record => pure (some record)

section Malloc

variable (heap : HeapMalloc)

/-- `list_append_ext`; the list that it leaves. -/
def listAppendExt (list : ListExt) (data : Addr) : M ListExt :=
  poolMalloc heap >>= fun node =>
    match node with
    | none => pure list
    | some node =>
      (fun s => some ((), { s with
        data := Function.update s.data node (some data)
        next := Function.update s.next node none })) >>= fun _ : Unit =>
      match list.tail with
      | none => pure ⟨some node, some node, list.length + 1⟩
      | some tail => setNext tail (some node) >>= fun _ => pure ⟨list.head, some node, list.length + 1⟩

/-- A block of another kind. -/
def otherBlock : M Unit :=
  cfgZmalloc heap >>= fun a => fun s => some ((), { s with other := Function.update s.other a (some ()) })

/-- `nvrec_section_new`, and its node in the list of the sections: whether it is linked there. -/
def nvrecSectionNew : M Bool :=
  otherBlock heap >>= fun _ => otherBlock heap >>= fun _ => otherBlock heap >>= fun _ =>
    poolMalloc heap >>= fun node =>
      match node with
      | none => pure false
      | some node => fun s => some (true, { s with other := Function.update s.other node (some ()) })

/-- `nvrec_entry_new`. -/
def nvrecEntryNew (key : BdAddr) (value : Addr) : M Addr :=
  cfgZmalloc heap >>= fun e =>
    (fun s => some ((), { s with entry := Function.update s.entry e (some (0, 0)) })) >>= fun _ : Unit =>
  cfgZmalloc heap >>= fun k =>
    (fun s => some ((), { s with key := Function.update s.key k (some key) })) >>= fun _ : Unit =>
  cfgZmalloc heap >>= fun v =>
    (fun s => some (e, { s with
      value := Function.update s.value v (some value)
      entry := Function.update s.entry e (some (k, v)) }))

/-- `nvrec_config_set_string` behind the section, which is in the configuration if `linked`. -/
def setStringIn (list : ListExt) (linked : Bool) (key : BdAddr) (value : Addr) : M Unit :=
  nvrecEntryFind key poolWords list.head >>= fun entry =>
    match entry with
    | some entry =>
      entryOf entry >>= fun kv => freeValue kv.2 >>= fun _ => cfgZmalloc heap >>= fun v => fun s =>
        some ((), { s with
          value := Function.update s.value v (some value)
          entry := Function.update s.entry entry (some (kv.1, v)) })
    | none =>
      nvrecEntryNew heap key value >>= fun entry => listAppendExt heap list entry >>= fun list =>
        if linked then setEntries list else pure ()

/-- `nvrec_config_set_int`. -/
def nvrecConfigSetInt (key : BdAddr) (value : Addr) : M Unit :=
  get >>= fun s =>
    match s.entries with
    | some list => setStringIn heap list true key value
    | none =>
      nvrecSectionNew heap >>= fun linked =>
        (if linked then setEntries ⟨none, none, 0⟩ else pure ()) >>= fun _ =>
        setStringIn heap ⟨none, none, 0⟩ linked key value

end Malloc

/-! ## `nvrecord.c` -/

/-- `config_entries_get_ddbrec_length`. -/
def ddbrecLength (s : Pool) : Nat := s.entries.elim 0 ListExt.length

/-- The record of the node's entry is freed, and the entry. -/
def freeEntryOf (node : Addr) : M Unit :=
  dataOf node >>= fun entry => entryOf entry >>= fun kv => keyOf kv.1 >>= fun key =>
    nvrecConfigGetInt key >>= fun record => freeRecord record >>= fun _ => nvrecEntryFree entry

/-- `config_entries_ddbdev_delete_head`. -/
def ddbdevDeleteHead : M Unit :=
  theEntries >>= fun list =>
    match list.head with
    | none => pure ()
    | some head_node =>
      freeEntryOf head_node >>= fun _ =>
      (if list.length = 1 then pure (none, none) else nextOf head_node >>= fun next => pure (next, list.tail)) >>= fun ends =>
      freeNode head_node >>= fun _ => setEntries ⟨ends.1, ends.2, list.length - 1⟩

/-- `node = list_next_ext(node)`, so often. -/
def listAdvance : Nat → Option Addr → M Addr
  | _, none => failure
  | 0, some node => pure node
  | k + 1, some node => nextOf node >>= listAdvance k

/-- `config_entries_ddbdev_delete_tail`. -/
def ddbdevDeleteTail : M Unit :=
  theEntries >>= fun list =>
    setEntries { list with length := list.length - 1 } >>= fun _ =>
    listAdvance (list.length - 1 - 1) list.head >>= fun node =>
    nextOf node >>= fun tailnode =>
      match tailnode with
      | none => failure
      | some tailnode =>
        freeEntryOf tailnode >>= fun _ => setNext node none >>= fun _ => freeNode tailnode >>= fun _ =>
          setEntries ⟨list.head, some node, list.length - 1⟩

/-- The loop of `config_entries_ddbdev_delete`: the node with the key, and how many there are in front of it. -/
def ddbdevPosition (key : BdAddr) : Nat → Nat → Option Addr → M (Option (Addr × Nat))
  | _, _, none => pure none
  | 0, _, some _ => failure
  | fuel + 1, pos, some node =>
    dataOf node >>= fun entry => entryOf entry >>= fun kv => keyOf kv.1 >>= fun k =>
      if k = key then pure (some (node, pos)) else nextOf node >>= ddbdevPosition key fuel (pos + 1)

/-- `config_entries_ddbdev_delete`. -/
def ddbdevDelete (key : BdAddr) : M Unit :=
  theEntries >>= fun list =>
    ddbdevPosition key poolWords 0 list.head >>= fun found =>
      match found with
      | none => pure ()
      | some (entry_del, pos) =>
        nextOf entry_del >>= fun entry_next => listAdvance (pos - 1) list.head >>= fun entry_pre =>
        freeEntryOf entry_del >>= fun _ => nextOf entry_pre >>= fun node =>
          match node with
          | none => failure
          | some node =>
            freeNode node >>= fun _ => setNext entry_pre entry_next >>= fun _ =>
              setEntries { list with length := list.length - 1 }

/-- `config_entries_ddbdev_is_head`. -/
def ddbdevIsHead (key : BdAddr) : M Bool :=
  theEntries >>= fun list =>
    match list.head with
    | none => failure
    | some node => dataOf node >>= fun entry => entryOf entry >>= fun kv => keyOf kv.1 >>= fun k => pure (decide (k = key))

/-- The loop of `config_entries_ddbdev_is_tail`: the last entry. -/
def lastEntry : Nat → Option Addr → Option Addr → M Addr
  | _, entry, none => (fun s => entry.map (·, s))
  | 0, _, some _ => failure
  | fuel + 1, _, some node => dataOf node >>= fun entry => nextOf node >>= lastEntry fuel (some entry)

/-- `config_entries_ddbdev_is_tail`. -/
def ddbdevIsTail (key : BdAddr) : M Bool :=
  theEntries >>= fun list => lastEntry poolWords none list.head >>= fun entry =>
    entryOf entry >>= fun kv => keyOf kv.1 >>= fun k => pure (decide (k = key))

/-- `config_specific_entry_value_delete`; of `param_rec` it reads the address, before it frees anything. -/
def specificEntryValueDelete (key : BdAddr) : M Unit :=
  ddbdevIsHead key >>= fun isHead =>
    if isHead then ddbdevDeleteHead
    else ddbdevIsTail key >>= fun isTail => if isTail then ddbdevDeleteTail else ddbdevDelete key

/-- `nv_record_ddbrec_find`, with `none` for `BT_STS_FAILED`. -/
def ddbrecFind (bd_ddr : BdAddr) : M (Option BtifDeviceRecord) :=
  nvrecConfigGetInt bd_ddr >>= fun record =>
    match record with
    | none => pure none
    | some record => recordOf record >>= fun d => pure (some d.record)

/-- `nv_record_ddbrec_delete`; whether it succeeds. -/
def ddbrecDelete (bdaddr : BdAddr) : M Bool :=
  nvrecConfigGetInt bdaddr >>= fun record =>
    match record with
    | none => pure false
    | some record => recordOf record >>= fun d => specificEntryValueDelete d.record.bdAddr >>= fun _ => pure true

/-- The record that `nv_record_ddbrec_add` puts into the pool, with what the device had before. -/
def newDevice (defaults : BtdeviceVolume) (param_rec : BtifDeviceRecord) (old : Option Device) : Device :=
  { record := param_rec
    device_vol := old.elim defaults Device.device_vol
    device_plf := old.elim ⟨false, false, false, 0⟩ Device.device_plf
    vend_id := old.elim 0 Device.vend_id
    vend_id_source := old.elim 0 Device.vend_id_source }

/-- `is_flush` of `nv_record_ddbrec_add`, for the record of the device if there is one. -/
def isFlush (param_rec : BtifDeviceRecord) (old : Option Device) : M Bool :=
  match old with
  | none => pure true
  | some d => if d.record = param_rec then ddbdevIsTail param_rec.bdAddr >>= fun isTail => pure !isTail else pure true

section Add

variable (heap : HeapMalloc) (defaults : BtdeviceVolume)

/-- `nv_record_ddbrec_add` behind its `pool_malloc`. -/
def addRecord (param_rec : BtifDeviceRecord) (old : Option Device) (record : Addr) : M Bool :=
  (fun s => some ((), { s with record := Function.update s.record record (some (newDevice defaults param_rec old)) }))
    >>= fun _ : Unit =>
  (if old.isSome then specificEntryValueDelete param_rec.bdAddr else pure ()) >>= fun _ =>
  get >>= fun s =>
  (if ddbRecordNum = ddbrecLength s then ddbdevDeleteHead else pure ()) >>= fun _ =>
  nvrecConfigSetInt heap param_rec.bdAddr record >>= fun _ => pure true

/-- `nv_record_ddbrec_add`, where `low` is whether `pool_free_space` is less than a record. -/
def ddbrecAdd (param_rec : BtifDeviceRecord) (low : Bool) : M Bool :=
  nvrecConfigGetInt param_rec.bdAddr >>= fun found =>
  (match found with
    | none => pure none
    | some record => recordOf record >>= fun d => pure (some d)) >>= fun old =>
  isFlush param_rec old >>= fun is_flush =>
    if is_flush then
      (if low then ddbdevDeleteHead else pure ()) >>= fun _ =>
      poolMalloc heap >>= fun record =>
        match record with
        | none => pure false
        | some record => addRecord heap defaults param_rec old record
    else pure true

end Add

end NvRecord.Legacy
