import Mathlib.Data.List.Basic
import Mathlib.Tactic.Common
import LittleBuddy.Lib.Bytes
import LittleBuddy.Lib.Runs
/-!
# The command channel

`platform/hal/hal_cmd.c`: commands are registered under their names, and
`hal_cmd_run` looks up the name of a packet that was received, calls what is
registered for it and sends a response. Receiving the packets and sending the
bytes of the response are left out. Where a failed `ASSERT` or a copy past the
end of an array ends a step, it has no result.
-/
open Runs Bytes

namespace Hal.Cmd

/-! ## The code -/

/-- `HAL_CMD_NAME_SIZE`. -/
abbrev halCmdNameSize : Nat := 12

/-- `HAL_CMD_TX_BUF_SIZE`. -/
abbrev halCmdTxBufSize : Nat := 100

/-- `HAL_CMD_LIST_NUM`. -/
abbrev halCmdListNum : Nat := 10

/-- The bytes of `data` in `hal_cmd_res_payload_t`. -/
abbrev resPayloadSize : Nat := halCmdTxBufSize - 13

/-- `hal_cmd_callback_t`: from the memory at the data and the length, what it returns, and the payloads that it
sets. -/
abbrev Callback := (Nat → UInt8) → UInt32 → UInt32 × List (List UInt8)

/-- `hal_cmd_list_t`. The name ends in the zeros that the list was cleared with. -/
structure Entry where
  name : List UInt8
  name_lt : name.length < halCmdNameSize
  name_nonzero : 0 ∉ name
  callback : Option Callback

/-- `hal_cmd_res_payload_t`, as far as its bytes count. -/
structure ResPayload where
  data : List UInt8
  length_le : data.length ≤ resPayloadSize

/-- `hal_cmd_res_t`. -/
structure Res where
  prefixWord : UInt32
  crc : UInt32
  name : List UInt8
  length_name : name.length = halCmdNameSize

/-- What `hal_cmd` keeps. -/
structure State where
  list : List Entry
  list_le : list.length ≤ halCmdListNum
  res : Res
  res_payload : ResPayload

/-- `hal_cmd` at power-on. -/
def start : State where
  list := []
  list_le := Nat.zero_le _
  res := ⟨0, 0, List.replicate halCmdNameSize 0, rfl⟩
  res_payload := ⟨[], Nat.zero_le _⟩

/-- `strcmp` of a string and what is at `name`: whether they are equal, and how many bytes of `name` it reads. -/
def strcmp : List UInt8 → (Nat → UInt8) → Bool × Nat
  | [], name => (name 0 == 0, 1)
  | c :: str, name =>
    if name 0 = c then ((strcmp str fun i => name (i + 1)).1, (strcmp str fun i => name (i + 1)).2 + 1) else (false, 1)

/-- `hal_cmd_list_get_id`, and how many bytes each of its comparisons reads. -/
def halCmdListGetId : List Entry → (Nat → UInt8) → Option Nat × List Nat
  | [], _ => (none, [])
  | entry :: list, name =>
    if (strcmp entry.name name).1 then (some 0, [(strcmp entry.name name).2])
    else ((halCmdListGetId list name).1.map (· + 1), (strcmp entry.name name).2 :: (halCmdListGetId list name).2)

/-- `hal_cmd_register`, with `hal_cmd_list_register` and `hal_cmd_list_add`. -/
def halCmdRegister (name : List UInt8) (hname : 0 ∉ name) (callback : Option Callback) (s : State) : Option State :=
  if h : name.length < halCmdNameSize then
    if (halCmdListGetId s.list (bufferOf name)).1 = none then
      if hroom : s.list.length < halCmdListNum then
        some { s with
          list := s.list ++ [⟨name, h, hname, callback⟩]
          list_le := by
            rw [List.length_append, List.length_singleton]
            exact hroom }
      else some s
    else some s
  else none

/-- `hal_cmd_set_res_playload`. -/
def halCmdSetResPlayload (data : List UInt8) (s : State) : Option State :=
  if h : data.length ≤ resPayloadSize then some { s with res_payload := ⟨data, h⟩ } else none

/-- The word at an offset in the packet. -/
def wordAt (buf : Nat → UInt8) (offset : Nat) : UInt32 := UInt32.ofNat (ofLe (read buf offset 4))

/-- Where `hal_cmd_list_parse` finds the name. -/
abbrev nameOffset : Nat := 8

/-- Where it finds the data. -/
abbrev dataOffset : Nat := 24

/-- `LEN` of the packet. -/
def lenOf (buf : Nat → UInt8) : UInt32 := wordAt buf 20

/-- What `hal_cmd_list_parse` keeps for the response. -/
def halCmdListParse (buf : Nat → UInt8) (s : State) : State :=
  { s with res := ⟨wordAt buf 0, wordAt buf 4, read buf nameOffset halCmdNameSize, length_read ..⟩ }

/-- A call of a callback: which, where its data is, and the length. -/
structure Handed where
  id : Nat
  offset : Nat
  len : UInt32

/-- `hal_cmd_list_process`: what it returns, the call and how much the comparisons have read. -/
def halCmdListProcess (buf : Nat → UInt8) (s : State) : Option (UInt32 × Option Handed × List Nat × State) :=
  let s := halCmdListParse buf s
  let (found, compared) := halCmdListGetId s.list fun i => buf (nameOffset + i)
  match found.bind fun id => s.list[id]?.map fun entry => (id, entry) with
  | none => some (-2, none, compared, s)
  | some (id, entry) =>
    match entry.callback with
    | none => some (-3, none, compared, s)
    | some callback =>
      let (ret, payloads) := callback (fun i => buf (dataOffset + i)) (lenOf buf)
      (payloads.foldlM (fun s data => halCmdSetResPlayload data s) s).map fun s =>
        (ret, some ⟨id, dataOffset, lenOf buf⟩, compared, s)

/-- `hal_cmd_tx_process`: the bytes in `tx_buf`, and `tx_len`. -/
def halCmdTxProcess (s : State) : Option (List UInt8 × UInt8 × State) :=
  let res := leBytes 4 s.res.prefixWord.toNat ++ leBytes 4 s.res.crc.toNat ++ s.res.name
  if s.res_payload.data = [] then some (res, UInt8.ofNat res.length, s)
  else
    let response := res ++ leBytes 4 s.res_payload.data.length ++ s.res_payload.data
    if response.length ≤ halCmdTxBufSize then
      some (response, UInt8.ofNat response.length, { s with res_payload := ⟨[], Nat.zero_le _⟩ })
    else none

/-- What was done for a packet. -/
structure Report where
  handed : Option Handed
  compared : List Nat
  response : List UInt8
  tx_len : UInt8

/-- `hal_cmd_run` when a packet has been received. -/
def halCmdRun (buf : Nat → UInt8) (s : State) : Option (Report × State) :=
  (halCmdListProcess buf s).bind fun (ret, handed, compared, s) =>
    let s := if ret ≠ 0 then { s with res := { s.res with crc := ret } } else s
    (halCmdTxProcess s).map fun (response, tx_len, s) => (⟨handed, compared, response, tx_len⟩, s)

/-- A registration or a packet, with the number of bytes received. -/
inductive Event where
  | register (name : List UInt8) (hname : 0 ∉ name) (callback : Option Callback)
  | packet (buf : Nat → UInt8) (received : Nat)

def step : Event → State → Option State
  | .register name hname callback, s => halCmdRegister name hname callback s
  | .packet buf _, s => (halCmdRun buf s).map Prod.snd

/-! ## What a packet may do -/

/-- The name field has this name. -/
def Named (entry : Entry) (buf : Nat → UInt8) : Prop := read buf nameOffset (entry.name.length + 1) = entry.name ++ [0]

/-- The callback is the one of the name, and its data was received; the comparisons stay in the name field, and
the response in its buffer. -/
structure Safe (s : State) (buf : Nat → UInt8) (received : Nat) (report : Report) : Prop where
  named : ∀ h, report.handed = some h → ∃ entry, s.list[h.id]? = some entry ∧ entry.callback.isSome ∧ Named entry buf
  received : ∀ h, report.handed = some h → h.offset + h.len.toNat ≤ received
  compared : ∀ n ∈ report.compared, n ≤ halCmdNameSize
  response_le : report.response.length ≤ halCmdTxBufSize
  tx_len : report.tx_len.toNat = report.response.length

/-- If the name is that of a command, the packet has been received up to the end of its data, and what the callback
sets has space in the payload, and the last of it in the response. -/
def Accepted (s : State) (buf : Nat → UInt8) (received : Nat) : Prop :=
  ∀ id entry callback, (halCmdListGetId s.list fun i => buf (nameOffset + i)).1 = some id → s.list[id]? = some entry →
    entry.callback = some callback →
    dataOffset + (lenOf buf).toNat ≤ received ∧
      (∀ data ∈ (callback (fun i => buf (dataOffset + i)) (lenOf buf)).2, data.length ≤ resPayloadSize) ∧
      ∀ data, (callback (fun i => buf (dataOffset + i)) (lenOf buf)).2.getLast? = some data → dataOffset + data.length ≤ halCmdTxBufSize

section Lookup

variable {list : List Entry} {name buf : Nat → UInt8} {str : List UInt8} {id : Nat}

theorem strcmp_reads (str : List UInt8) (name : Nat → UInt8) : (strcmp str name).2 ≤ str.length + 1 := by
  induction str generalizing name with
  | nil => exact Nat.le_refl _
  | cons c str ih =>
    rw [strcmp]
    split
    · exact Nat.succ_le_succ (ih _)
    · exact Nat.succ_le_succ (Nat.zero_le _)

theorem read_first (m : Nat → UInt8) (n : Nat) : read m 0 (n + 1) = m 0 :: read (fun i => m (i + 1)) 0 n := by
  rw [Bytes.read, List.range_succ_eq_map, List.map_cons, List.map_map]
  refine congrArg _ (List.map_congr_left fun j _ => ?_)
  exact congrArg m (by rw [Nat.zero_add, Nat.zero_add])

theorem strcmp_eq (h : (strcmp str name).1 = true) : read name 0 (str.length + 1) = str ++ [0] := by
  induction str generalizing name with
  | nil =>
    rw [strcmp, beq_iff_eq] at h
    exact congrArg (fun b => [b]) h
  | cons c str ih =>
    rw [strcmp] at h
    split at h
    · rename_i hfirst
      rw [List.length_cons, read_first, hfirst, ih h, List.cons_append]
    · cases h

/-- The name that is found is the whole string in the field. -/
theorem getId_spec (h : (halCmdListGetId list name).1 = some id) :
    ∃ entry, list[id]? = some entry ∧ read name 0 (entry.name.length + 1) = entry.name ++ [0] := by
  induction list generalizing id with
  | nil => cases h
  | cons entry list ih =>
    rw [halCmdListGetId] at h
    split at h
    · rename_i heq
      obtain rfl := Option.some_inj.mp h
      exact ⟨entry, rfl, strcmp_eq heq⟩
    · obtain ⟨i, hi, rfl⟩ := Option.map_eq_some_iff.mp h
      exact ih hi

/-- No comparison reads behind the zero that ends the registered name. -/
theorem compared_le {n : Nat} (h : n ∈ (halCmdListGetId list name).2) : n ≤ halCmdNameSize := by
  induction list with
  | nil => cases h
  | cons entry list ih =>
    have hfirst : (strcmp entry.name name).2 ≤ halCmdNameSize := Nat.le_trans (strcmp_reads _ _) entry.name_lt
    rw [halCmdListGetId] at h
    split at h
    · rw [List.mem_singleton.mp h]
      exact hfirst
    · rcases List.mem_cons.mp h with rfl | hrest
      · exact hfirst
      · exact ih hrest

end Lookup

section Packets

variable {s s' : State} {buf : Nat → UInt8} {received id : Nat} {entry : Entry} {callback : Callback}
  {payloads : List (List UInt8)} {report : Report}

/-- The payload behind the calls of a callback is the last one. -/
theorem setAll_spec (h : payloads.foldlM (fun s data => halCmdSetResPlayload data s) s = some s') :
    (∀ data ∈ payloads, data.length ≤ resPayloadSize) ∧
      ∃ payload, s' = { s with res_payload := payload } ∧ payload.data = payloads.getLast?.getD s.res_payload.data := by
  induction payloads generalizing s with
  | nil =>
    obtain rfl := Option.some_inj.mp h
    exact ⟨List.forall_mem_nil _, s.res_payload, rfl, rfl⟩
  | cons data payloads ih =>
    rw [List.foldlM_cons] at h
    obtain ⟨s₁, hset, hrest⟩ := Option.bind_eq_some_iff.mp h
    rw [halCmdSetResPlayload] at hset
    split at hset
    · rename_i hle
      obtain rfl := Option.some_inj.mp hset
      obtain ⟨hall, payload, rfl, hlast⟩ := ih hrest
      refine ⟨List.forall_mem_cons.mpr ⟨hle, hall⟩, payload, rfl, ?_⟩
      rw [hlast, List.getLast?_cons]
      rfl
    · cases hset

theorem setAll_defined (h : ∀ data ∈ payloads, data.length ≤ resPayloadSize) :
    ∃ s', payloads.foldlM (fun s data => halCmdSetResPlayload data s) s = some s' := by
  induction payloads generalizing s with
  | nil => exact ⟨s, rfl⟩
  | cons data payloads ih =>
    obtain ⟨hle, hall⟩ := List.forall_mem_cons.mp h
    rw [List.foldlM_cons, halCmdSetResPlayload, dif_pos hle]
    exact ih hall

/-- A response fits exactly if its payload leaves space for what is in front of it. -/
theorem txProcess_spec (s : State) :
    (∀ response tx_len s', halCmdTxProcess s = some (response, tx_len, s') → dataOffset + s.res_payload.data.length ≤ halCmdTxBufSize ∧
      response.length ≤ halCmdTxBufSize ∧ tx_len.toNat = response.length ∧ s' = { s with res_payload := ⟨[], Nat.zero_le _⟩ }) ∧
    (dataOffset + s.res_payload.data.length ≤ halCmdTxBufSize → (halCmdTxProcess s).isSome) := by
  have hres : (leBytes 4 s.res.prefixWord.toNat ++ leBytes 4 s.res.crc.toNat ++ s.res.name).length = 20 := by
    rw [List.length_append, List.length_append, length_leBytes, length_leBytes, s.res.length_name]
    rfl
  have hbyte : ∀ n ≤ halCmdTxBufSize, (UInt8.ofNat n).toNat = n := fun n hn => by
    rw [UInt8.toNat_ofNat']
    exact Nat.mod_eq_of_lt (Nat.lt_of_le_of_lt hn (by decide))
  rw [halCmdTxProcess]
  by_cases hempty : s.res_payload.data = []
  · simp only [if_pos hempty]
    refine ⟨fun response tx_len s' h => ?_, fun _ => rfl⟩
    obtain ⟨rfl, hrest⟩ := Prod.mk.inj (Option.some_inj.mp h)
    obtain ⟨rfl, rfl⟩ := Prod.mk.inj hrest
    rw [hres, hempty]
    refine ⟨by decide, by decide, hbyte 20 (by decide), ?_⟩
    obtain ⟨list, list_le, res, ⟨data, hdata⟩⟩ := s
    cases hempty
    rfl
  · simp only [if_neg hempty]
    have hlength : (leBytes 4 s.res.prefixWord.toNat ++ leBytes 4 s.res.crc.toNat ++ s.res.name ++
        leBytes 4 s.res_payload.data.length ++ s.res_payload.data).length = dataOffset + s.res_payload.data.length := by
      rw [List.length_append, List.length_append, hres, length_leBytes]
    rw [hlength]
    refine ⟨fun response tx_len s' h => ?_, fun h => by rw [if_pos h]; rfl⟩
    split at h
    · rename_i hle
      obtain ⟨rfl, hrest⟩ := Prod.mk.inj (Option.some_inj.mp h)
      obtain ⟨rfl, rfl⟩ := Prod.mk.inj hrest
      rw [hlength]
      exact ⟨hle, hle, hbyte _ hle, rfl⟩
    · cases h

/-- The name is not found, or without a callback. -/
theorem listProcess_none (buf : Nat → UInt8) (s : State)
    (h : ∀ id entry callback, (halCmdListGetId s.list fun i => buf (nameOffset + i)).1 = some id →
    s.list[id]? = some entry → entry.callback ≠ some callback) :
    ∃ ret, halCmdListProcess buf s =
      some (ret, none, (halCmdListGetId s.list fun i => buf (nameOffset + i)).2, halCmdListParse buf s) := by
  rw [halCmdListProcess]
  cases hid : (halCmdListGetId s.list fun i => buf (nameOffset + i)).1 with
  | none =>
    refine ⟨-2, ?_⟩
    simp only [halCmdListParse, hid, Option.bind_none]
  | some id =>
    obtain ⟨entry, hentry, _⟩ := getId_spec hid
    cases hcallback : entry.callback with
    | none =>
      refine ⟨-3, ?_⟩
      simp only [halCmdListParse, hid, Option.bind_some, hentry, Option.map_some, hcallback]
    | some callback => exact absurd hcallback (h id entry callback hid hentry)

theorem listProcess_some (hid : (halCmdListGetId s.list fun i => buf (nameOffset + i)).1 = some id)
    (hentry : s.list[id]? = some entry) (hcallback : entry.callback = some callback) :
    halCmdListProcess buf s =
      ((callback (fun i => buf (dataOffset + i)) (lenOf buf)).2.foldlM (fun s data => halCmdSetResPlayload data s)
        (halCmdListParse buf s)).map fun s' =>
        ((callback (fun i => buf (dataOffset + i)) (lenOf buf)).1, some ⟨id, dataOffset, lenOf buf⟩,
          (halCmdListGetId s.list fun i => buf (nameOffset + i)).2, s') := by
  rw [halCmdListProcess]
  simp only [halCmdListParse, hid, Option.bind_some, hentry, Option.map_some, hcallback]

/-- What is done behind the lookup and the callback. -/
theorem run_some (h : halCmdRun buf s = some (report, s')) :
    ∃ ret handed compared s₁, halCmdListProcess buf s = some (ret, handed, compared, s₁) ∧ report.handed = handed ∧
      report.compared = compared ∧ dataOffset + s₁.res_payload.data.length ≤ halCmdTxBufSize ∧
      report.response.length ≤ halCmdTxBufSize ∧ report.tx_len.toNat = report.response.length ∧ s'.res_payload.data = [] := by
  obtain ⟨⟨ret, handed, compared, s₁⟩, hprocess, h⟩ := Option.bind_eq_some_iff.mp h
  obtain ⟨⟨response, tx_len, s₂⟩, htx, h⟩ := Option.map_eq_some_iff.mp h
  obtain ⟨rfl, rfl⟩ := Prod.mk.inj h
  obtain ⟨hpayload, hresponse, htxlen, rfl⟩ := (txProcess_spec _).1 _ _ _ htx
  refine ⟨ret, handed, compared, s₁, hprocess, rfl, rfl, ?_, hresponse, htxlen, rfl⟩
  split at hpayload
  · exact hpayload
  · exact hpayload

theorem run_defined {ret : UInt32} {handed : Option Handed} {compared : List Nat} {s₁ : State}
    (hprocess : halCmdListProcess buf s = some (ret, handed, compared, s₁))
    (hpayload : dataOffset + s₁.res_payload.data.length ≤ halCmdTxBufSize) :
    ∃ report s', halCmdRun buf s = some (report, s') ∧ report.handed = handed ∧ report.compared = compared := by
  obtain ⟨⟨response, tx_len, s₂⟩, htx⟩ := Option.isSome_iff_exists.mp
    ((txProcess_spec (if ret ≠ 0 then { s₁ with res := { s₁.res with crc := ret } } else s₁)).2 (by split <;> exact hpayload))
  refine ⟨⟨handed, compared, response, tx_len⟩, s₂, ?_, rfl, rfl⟩
  rw [halCmdRun, hprocess, Option.bind_some]
  simp only [htx, Option.map_some]

/-- Behind each step there is no payload left. -/
theorem step_payload {event : Event} (hs : s.res_payload.data = []) (h : step event s = some s') : s'.res_payload.data = [] := by
  cases event with
  | register name hname callback =>
    rw [step, halCmdRegister] at h
    split at h
    · split at h
      · split at h
        · obtain rfl := Option.some_inj.mp h
          exact hs
        · obtain rfl := Option.some_inj.mp h
          exact hs
      · obtain rfl := Option.some_inj.mp h
        exact hs
    · cases h
  | packet buf received =>
    obtain ⟨⟨report, s₁⟩, hrun, rfl⟩ := Option.map_eq_some_iff.mp h
    obtain ⟨_, _, _, _, _, _, _, _, _, _, hempty⟩ := run_some hrun
    exact hempty

/-- The comparisons and the name of a callback are right for every packet. -/
theorem safe_of_run (h : halCmdRun buf s = some (report, s'))
    (hreceived : ∀ h, report.handed = some h → h.offset + h.len.toNat ≤ received) : Safe s buf received report := by
  obtain ⟨ret, handed, compared, s₁, hprocess, rfl, rfl, _, hresponse, htxlen, _⟩ := run_some h
  have hcompared : report.compared = (halCmdListGetId s.list fun i => buf (nameOffset + i)).2 ∧
      ∀ h, report.handed = some h → ∃ entry, s.list[h.id]? = some entry ∧ entry.callback.isSome ∧ Named entry buf := by
    by_cases hfound : ∃ id entry callback, (halCmdListGetId s.list fun i => buf (nameOffset + i)).1 = some id ∧
        s.list[id]? = some entry ∧ entry.callback = some callback
    · obtain ⟨id, entry, callback, hid, hentry, hcallback⟩ := hfound
      rw [listProcess_some hid hentry hcallback] at hprocess
      obtain ⟨s₂, _, heq⟩ := Option.map_eq_some_iff.mp hprocess
      simp only [Prod.mk.injEq] at heq
      obtain ⟨_, hhanded, hcompared, _⟩ := heq
      refine ⟨hcompared.symm, fun h hh => ?_⟩
      obtain rfl := Option.some_inj.mp (hhanded.trans hh)
      obtain ⟨entry', hentry', hname⟩ := getId_spec hid
      obtain rfl := Option.some_inj.mp (hentry.symm.trans hentry')
      refine ⟨entry, hentry, by rw [hcallback]; rfl, ?_⟩
      rw [Named, ← hname]
      simp only [Bytes.read, Nat.zero_add]
    · obtain ⟨ret', hnone⟩ := listProcess_none buf s fun id entry callback hid hentry hcallback =>
        hfound ⟨id, entry, callback, hid, hentry, hcallback⟩
      rw [hnone] at hprocess
      simp only [Option.some_inj, Prod.mk.injEq] at hprocess
      obtain ⟨_, hhanded, hcompared, _⟩ := hprocess
      refine ⟨hcompared.symm, fun h hh => ?_⟩
      rw [← hhanded] at hh
      cases hh
  exact ⟨hcompared.2, hreceived, fun n hn => compared_le (hcompared.1 ▸ hn), hresponse, htxlen⟩

/-- After any registrations and packets, a packet is worked on safely exactly if it is received up to the end of
its data and the callback's payload fits. -/
theorem safe_iff {events : List Event} (h : Run step (fun _ _ => True) (· = start) s events) (buf : Nat → UInt8) (received : Nat) :
    (∃ report s', halCmdRun buf s = some (report, s') ∧ Safe s buf received report) ↔ Accepted s buf received := by
  have hempty : s.res_payload.data = [] := by
    refine h.inv (fun s => s.res_payload.data = []) ?_ fun _ _ _ hs _ hstep => step_payload hs hstep
    rintro _ rfl
    rfl
  constructor
  · rintro ⟨report, s', hrun, hsafe⟩ id entry callback hid hentry hcallback
    obtain ⟨ret, handed, compared, s₁, hprocess, hhanded, _, hpayload, _⟩ := run_some hrun
    rw [listProcess_some hid hentry hcallback] at hprocess
    obtain ⟨s₂, hset, heq⟩ := Option.map_eq_some_iff.mp hprocess
    simp only [Prod.mk.injEq] at heq
    obtain ⟨_, rfl, _, rfl⟩ := heq
    obtain ⟨hall, payload, rfl, hlast⟩ := setAll_spec hset
    refine ⟨hsafe.received _ hhanded, hall, fun data hdata => ?_⟩
    rw [hdata, Option.getD_some] at hlast
    rw [← hlast]
    exact hpayload
  · intro haccepted
    by_cases hfound : ∃ id entry callback, (halCmdListGetId s.list fun i => buf (nameOffset + i)).1 = some id ∧
        s.list[id]? = some entry ∧ entry.callback = some callback
    · obtain ⟨id, entry, callback, hid, hentry, hcallback⟩ := hfound
      obtain ⟨hreceived, hall, hlast⟩ := haccepted id entry callback hid hentry hcallback
      obtain ⟨s₁, hset⟩ := setAll_defined (s := halCmdListParse buf s) hall
      obtain ⟨_, payload, rfl, hdata⟩ := setAll_spec hset
      have hprocess := listProcess_some hid hentry hcallback
      rw [hset, Option.map_some] at hprocess
      have hpayload : dataOffset + payload.data.length ≤ halCmdTxBufSize := by
        cases hpayloads : (callback (fun i => buf (dataOffset + i)) (lenOf buf)).2.getLast? with
        | none =>
          rw [hpayloads, Option.getD_none] at hdata
          rw [hdata, show (halCmdListParse buf s).res_payload.data = [] from hempty]
          decide
        | some data =>
          rw [hpayloads, Option.getD_some] at hdata
          rw [hdata]
          exact hlast data hpayloads
      obtain ⟨report, s', hrun, hhanded, _⟩ := run_defined hprocess hpayload
      refine ⟨report, s', hrun, safe_of_run hrun fun h hh => ?_⟩
      obtain rfl := Option.some_inj.mp (hhanded.symm.trans hh)
      exact hreceived
    · obtain ⟨ret, hprocess⟩ := listProcess_none buf s fun id entry callback hid hentry hcallback =>
        hfound ⟨id, entry, callback, hid, hentry, hcallback⟩
      have hpayload : dataOffset + (halCmdListParse buf s).res_payload.data.length ≤ halCmdTxBufSize := by
        rw [show (halCmdListParse buf s).res_payload.data = [] from hempty]
        decide
      obtain ⟨report, s', hrun, hhanded, _⟩ := run_defined hprocess hpayload
      refine ⟨report, s', hrun, safe_of_run hrun fun h hh => ?_⟩
      rw [hhanded] at hh
      cases hh

end Packets

/-- A command that sets no payload. -/
def pingEntry : Entry := ⟨[0x70, 0x69, 0x6e, 0x67], by decide, by decide, some fun _ _ => (0, [])⟩

/-- The state with that command. -/
def pinged : State := { start with list := [pingEntry], list_le := by decide }

theorem run_pinged : Run step (fun _ _ => True) (· = start) pinged
    [.register pingEntry.name pingEntry.name_nonzero pingEntry.callback] := by
  have hstep : step (.register pingEntry.name pingEntry.name_nonzero pingEntry.callback) start = some pinged := rfl
  have hstart : Run step (fun _ _ => True) (· = start) start [] := .nil rfl
  exact hstart.snoc trivial hstep

/-- A packet for it, with this length. -/
def pingPacket (len : UInt8) : Nat → UInt8 :=
  bufferOf ([0, 0, 0, 0, 0, 0, 0, 0, 0x70, 0x69, 0x6e, 0x67] ++ List.replicate 8 0 ++ [len, 0, 0, 0])

theorem safe_without_data : ∃ report s', halCmdRun (pingPacket 0) pinged = some (report, s') ∧
    Safe pinged (pingPacket 0) 24 report := by
  refine (safe_iff run_pinged (pingPacket 0) 24).mpr ?_
  intro id entry callback hid hentry hcallback
  obtain rfl : entry = pingEntry := List.mem_singleton.mp (List.mem_of_getElem? hentry)
  obtain rfl := Option.some_inj.mp hcallback
  exact ⟨by decide, List.forall_mem_nil _, fun data hdata => by cases hdata⟩

/-- A packet that ends behind its length is handed on with a length all the same. -/
theorem length_not_received : ∃ report s', halCmdRun (pingPacket 100) pinged = some (report, s') ∧
    ¬Safe pinged (pingPacket 100) 24 report := by
  have hlong : ((halCmdRun (pingPacket 100) pinged).any fun r =>
      r.1.handed.any fun h => decide (24 < h.offset + h.len.toNat)) = true := by decide
  obtain ⟨⟨report, s'⟩, hrun, hhanded⟩ := (Option.any_eq_true ..).mp hlong
  obtain ⟨h, hh, hlen⟩ := (Option.any_eq_true ..).mp hhanded
  refine ⟨report, s', hrun, fun hsafe => ?_⟩
  exact absurd (of_decide_eq_true hlen) (Nat.not_lt.mpr (hsafe.received h hh))

end Hal.Cmd
