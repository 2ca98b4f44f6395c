import LittleBuddy.Lib.Lanes
import LittleBuddy.Lib.Runs
import Mathlib.Data.List.Basic
/-!
# The transfer queue

`platform/hal/hal_transq.c`: the slots of a hardware queue between two
processors, with the normal priority in the first slots and the high priority in
the last ones. Each priority fills its slots round and round. The peer takes the
transfers of a priority in the same order, and the hardware answers with the
done bit of the slot, which the sender finds in its interrupt handler or by polling.
-/
open Runs

namespace Hal.Transq

/-! ## The code -/

/-- `TRANSQ_SLOT_NUM`. -/
abbrev slotNum : Nat := 32

/-- `HAL_TRANSQ_PRI_T`. -/
inductive Pri
  | normal
  | high
  deriving DecidableEq, Repr

/-- The part of `HAL_TRANSQ_CFG_T` about sending. -/
structure Cfg where
  tx_num : Pri → Nat
  tx_handler : Bool

/-- `HAL_TRANSQ_RET_T`, as far as the sender returns it. -/
inductive Ret
  | ok
  | badTxNum
  | badMode
  | txFull
  deriving DecidableEq, Repr

/-- `WSLOT`. -/
structure Slot where
  addr : UInt32
  len : UInt32
  deriving DecidableEq, Repr, Inhabited

/-- The variables of one queue, the registers of the sender, and the position and
the interrupt bits of the peer. -/
structure State where
  next_tx_slot : Pri → Nat
  active_tx_slot : Pri → Nat
  tx_slot_full : Pri → Bool
  wslot : Nat → Slot
  ldone_ris : BitVec 32
  ldone_intmask : BitVec 32
  lerr_ris : BitVec 32
  lerr_intmask : BitVec 32
  rmt_ris : BitVec 32
  peer_next_rx_slot : Pri → Nat

/-- `construct_mask`. -/
def constructMask (lsb width : Nat) : BitVec 32 :=
  if lsb ≥ 32 ∨ width = 0 then 0
  else (List.range' lsb width).foldl (fun result i => result ||| 1#32 <<< i) 0

/-- Where the slots of a priority begin. -/
def Cfg.base (cfg : Cfg) : Pri → Nat
  | .normal => 0
  | .high => slotNum - cfg.tx_num .high

/-- `hal_transq_open`, with the slot numbers and registers of `hal_transq_update_num`. -/
def halTransqOpen (cfg : Cfg) : Option State :=
  if cfg.tx_num .normal + cfg.tx_num .high > slotNum then none
  else
    let tx_mask := constructMask 0 (cfg.tx_num .normal) |||
      constructMask (slotNum - cfg.tx_num .high) (cfg.tx_num .high)
    some {
      next_tx_slot := fun pri => if cfg.tx_num pri = 0 then slotNum else cfg.base pri
      active_tx_slot := fun _ => slotNum
      tx_slot_full := fun _ => false
      wslot := fun _ => default
      ldone_ris := 0
      ldone_intmask := if cfg.tx_handler then tx_mask else 0
      lerr_ris := 0
      lerr_intmask := tx_mask
      rmt_ris := 0
      peer_next_rx_slot := fun pri => if cfg.tx_num pri = 0 then slotNum else cfg.base pri }

variable (cfg : Cfg)

/-- `get_next_tx_slot`, and `get_next_rx_slot` of the peer. -/
def getNextSlot (pri : Pri) (slot : Nat) : Nat :=
  match pri with
  | .high => if slot + 1 ≥ slotNum then slotNum - cfg.tx_num .high else slot + 1
  | .normal => if slot + 1 ≥ cfg.tx_num .normal then 0 else slot + 1

/-- `1 << slot`. The language does not define it for `slot` = 32; `v` stands for
what it is there. -/
def shl (v : BitVec 32) (slot : Nat) : BitVec 32 := if slot < 32 then 1#32 <<< slot else v

/-- `hal_transq_tx`. A slot that the peer has not taken yet is an error to the hardware. -/
def halTransqTx (pri : Pri) (data : Slot) (s : State) : Ret × State :=
  if cfg.tx_num pri = 0 then (.badTxNum, s)
  else if s.tx_slot_full pri then (.txFull, s)
  else
    let slot := s.next_tx_slot pri
    let bit := shl 0 slot
    let active := if s.active_tx_slot pri ≥ slotNum then slot else s.active_tx_slot pri
    let next := getNextSlot cfg pri slot
    (.ok, { s with
      wslot := Function.update s.wslot slot data
      lerr_ris := s.lerr_ris ||| s.rmt_ris &&& bit
      rmt_ris := s.rmt_ris ||| bit
      active_tx_slot := Function.update s.active_tx_slot pri active
      next_tx_slot := Function.update s.next_tx_slot pri next
      tx_slot_full := Function.update s.tx_slot_full pri (s.tx_slot_full pri || next == active) })

/-- `hal_transq_active_tx_valid`. -/
def activeTxValid (pri : Pri) (s : State) : Bool :=
  s.active_tx_slot pri ≥ slotNum || s.active_tx_slot pri != s.next_tx_slot pri || s.tx_slot_full pri

/-- What `hal_transq_local_irq_handler` and `hal_transq_get_tx_status` do with a
done bit of `pri`: clear it and go on to the next slot. -/
def finishTx (pri : Pri) (slot : Nat) (bit : BitVec 32) (s : State) : State :=
  let next_slot := getNextSlot cfg pri slot
  let s := { s with ldone_ris := s.ldone_ris &&& ~~~bit }
  if !s.tx_slot_full pri && next_slot == s.next_tx_slot pri then
    { s with active_tx_slot := Function.update s.active_tx_slot pri slotNum }
  else
    { s with
      tx_slot_full := Function.update s.tx_slot_full pri false
      active_tx_slot := Function.update s.active_tx_slot pri (if cfg.tx_num pri = 1 then slotNum else next_slot) }

/-- A turn of the loops of `hal_transq_local_irq_handler`: the call of `tx_handler`,
if any. None is a failed assertion. -/
def halTransqLocalIrqHandler (s : State) : Option (Option (Pri × Slot) × State) :=
  if s.lerr_ris &&& s.lerr_intmask ≠ 0 then none
  else
    let status := s.ldone_ris &&& s.ldone_intmask
    if status = 0 then some (none, s)
    else if cfg.tx_handler then
      if activeTxValid .high s && activeTxValid .normal s then
        let high := s.active_tx_slot .high
        let normal := s.active_tx_slot .normal
        if high < slotNum ∧ status &&& shl 0 high ≠ 0 then
          some (some (.high, s.wslot high), finishTx cfg .high high (shl 0 high) s)
        else if normal < slotNum ∧ status &&& shl 0 normal ≠ 0 then
          some (some (.normal, s.wslot normal), finishTx cfg .normal normal (shl 0 normal) s)
        else none
      else none
    else some (none, { s with ldone_intmask := 0 })

/-- `hal_transq_get_tx_status`: the return value and `*done`. None is a failed assertion. -/
def halTransqGetTxStatus (v : BitVec 32) (pri : Pri) (s : State) : Option (Ret × Bool × State) :=
  if cfg.tx_num pri = 0 then some (.badTxNum, false, s)
  else if cfg.tx_handler then some (.badMode, false, s)
  else if activeTxValid pri s then
    let slot := s.active_tx_slot pri
    -- the slot is not compared with `TRANSQ_SLOT_NUM` here
    if s.ldone_ris &&& shl v slot ≠ 0 then some (.ok, true, finishTx cfg pri slot (shl v slot) s)
    else some (.ok, false, s)
  else none

/-- `hal_transq_rx_next` of the peer, as far as it takes a transfer: what it takes. -/
def peerRxNext (pri : Pri) (s : State) : Option Slot × State :=
  let slot := s.peer_next_rx_slot pri
  if slot < slotNum ∧ s.rmt_ris &&& shl 0 slot ≠ 0 then
    (some (s.wslot slot), { s with
      rmt_ris := s.rmt_ris &&& ~~~(shl 0 slot)
      ldone_ris := s.ldone_ris ||| shl 0 slot
      peer_next_rx_slot := Function.update s.peer_next_rx_slot pri (getNextSlot cfg pri slot) })
  else (none, s)

/-! ## The system -/

/-- The queue, with the transfers of each priority that were accepted, taken by the
peer, and reported as done. -/
structure Sys extends State where
  submitted : Pri → List Slot
  received : Pri → List Slot
  reported : Pri → List Slot

/-- A call, a turn of the interrupt handler, or a step of the peer. -/
inductive Event
  | tx (pri : Pri) (data : Slot)
  | irq
  | poll (pri : Pri)
  | peer (pri : Pri)

/-- One more entry in the log of `pri`. -/
def log (l : Pri → List Slot) (pri : Pri) (x : Slot) : Pri → List Slot := Function.update l pri (l pri ++ [x])

/-- One event. None is a failed assertion. -/
def step (v : BitVec 32) : Event → Sys → Option Sys
  | .tx pri data, s =>
    match halTransqTx cfg pri data s.toState with
    | (.ok, s') => some { s with toState := s', submitted := log s.submitted pri data }
    | (_, s') => some { s with toState := s' }
  | .irq, s =>
    match halTransqLocalIrqHandler cfg s.toState with
    | none => none
    | some (none, s') => some { s with toState := s' }
    | some (some (pri, data), s') => some { s with toState := s', reported := log s.reported pri data }
  | .poll pri, s =>
    match halTransqGetTxStatus cfg v pri s.toState with
    | none => none
    | some (_, false, s') => some { s with toState := s' }
    | some (_, true, s') =>
      some { s with toState := s', reported := log s.reported pri (s.wslot (s.active_tx_slot pri)) }
  | .peer pri, s =>
    match peerRxNext cfg pri s.toState with
    | (none, s') => some { s with toState := s' }
    | (some data, s') => some { s with toState := s', received := log s.received pri data }

/-- The queue is opened. -/
def Opened (s : Sys) : Prop :=
  halTransqOpen cfg = some s.toState ∧ s.submitted = (fun _ => []) ∧ s.received = (fun _ => []) ∧
    s.reported = fun _ => []

/-- A poll comes while a transfer of its priority is in progress, or the undefined
value of `1 << TRANSQ_SLOT_NUM` has no bit of `LDONE_RIS`. -/
def Covered (v : BitVec 32) : Event → Sys → Prop
  | .poll pri, s => s.active_tx_slot pri < slotNum ∨ s.ldone_ris &&& v = 0
  | _, _ => True

instance (v : BitVec 32) (e : Event) (s : Sys) : Decidable (Covered v e s) := by
  cases e <;> unfold Covered <;> infer_instance

/-! ## What is kept -/

/-- The slots of the two priorities do not overlap in a configuration that `hal_transq_open` accepts. -/
def Cfg.lanes (h : cfg.tx_num .normal + cfg.tx_num .high ≤ slotNum) : Lanes Pri where
  base := cfg.base
  size := cfg.tx_num
  apart p q hne := by
    cases p <;> cases q <;> simp_all [Cfg.base] <;> omega

/-- The slot of transfer number `k` of a priority. -/
def Cfg.slot (pri : Pri) (k : Nat) : Nat := cfg.base pri + k % cfg.tx_num pri

/-- What the claim says of a state: reports follow the order of submission and of
the peer, the slots are used in turn, a slot keeps its transfer until that is
reported, and a refusal means that every slot is in use. -/
structure Faithful (s : Sys) : Prop where
  reported : ∀ pri, s.reported pri <+: s.received pri
  received : ∀ pri, s.received pri <+: s.submitted pri
  next : ∀ pri, 0 < cfg.tx_num pri → s.next_tx_slot pri = cfg.slot pri (s.submitted pri).length
  in_use : ∀ pri, (s.submitted pri).length ≤ (s.reported pri).length + cfg.tx_num pri
  kept : ∀ pri k (h : k < (s.submitted pri).length), (s.reported pri).length ≤ k →
    s.wslot (cfg.slot pri k) = (s.submitted pri)[k]
  full : ∀ pri data, (halTransqTx cfg pri data s.toState).1 = .txFull ↔
    0 < cfg.tx_num pri ∧ (s.submitted pri).length = (s.reported pri).length + cfg.tx_num pri

/-! ## Bits -/

section Bits

variable {r : BitVec 32} {v : BitVec 32} {slot i : Nat}

theorem shl_getLsbD (h : slot < slotNum) : (shl v slot).getLsbD i = decide (i = slot) := by
  rw [shl, if_pos h, ← BitVec.twoPow_eq, BitVec.getLsbD_twoPow]
  by_cases hi : i = slot
  · simp [hi, h]
  · simp [hi, Ne.symm hi]

theorem and_shl (h : slot < slotNum) : r &&& shl v slot ≠ 0 ↔ r.getLsbD slot = true := by
  constructor
  · intro hne
    apply Classical.byContradiction
    intro hbit
    apply hne
    apply BitVec.eq_of_getLsbD_eq
    intro i hi
    rw [BitVec.getLsbD_and, shl_getLsbD h]
    by_cases hs : i = slot
    · rw [hs, Bool.not_eq_true] at *
      simp [hbit]
    · simp [hs]
  · intro hbit heq
    have := congrArg (·.getLsbD slot) heq
    simp [BitVec.getLsbD_and, shl_getLsbD h, hbit] at this

theorem or_shl (h : slot < slotNum) : (r ||| shl v slot).getLsbD i = true ↔ r.getLsbD i = true ∨ i = slot := by
  simp [BitVec.getLsbD_or, shl_getLsbD h]

theorem clear_shl (h : slot < slotNum) :
    (r &&& ~~~(shl v slot)).getLsbD i = true ↔ r.getLsbD i = true ∧ i ≠ slot := by
  rw [BitVec.getLsbD_and, BitVec.getLsbD_not, shl_getLsbD h]
  constructor
  · intro hb
    simp only [Bool.and_eq_true, decide_eq_true_eq, Bool.not_eq_true', decide_eq_false_iff_not] at hb
    exact ⟨hb.1, hb.2.2⟩
  · rintro ⟨hb, hne⟩
    have hlt := BitVec.lt_of_getLsbD hb
    simp [hb, hne, hlt]

theorem foldl_mask (l : List Nat) (hl : ∀ i ∈ l, i < slotNum) :
    (l.foldl (fun result i => result ||| 1#32 <<< i) r).getLsbD i = true ↔ r.getLsbD i = true ∨ i ∈ l := by
  induction l generalizing r with
  | nil => simp
  | cons j l ih =>
    have hj : j < slotNum := hl j (List.mem_cons_self ..)
    have hshl : 1#32 <<< j = shl 0 j := (if_pos hj).symm
    rw [List.foldl_cons, ih fun i hi => hl i (List.mem_cons_of_mem _ hi), hshl, or_shl hj, List.mem_cons, or_assoc]

theorem constructMask_getLsbD {lsb width : Nat} (h : lsb + width ≤ slotNum) :
    (constructMask lsb width).getLsbD i = true ↔ lsb ≤ i ∧ i < lsb + width := by
  unfold constructMask
  split
  · rename_i hnone
    have h32 : slotNum = 32 := rfl
    simp only [BitVec.ofNat_eq_ofNat, BitVec.getLsbD_zero, Bool.false_eq_true, false_iff]
    omega
  · rw [foldl_mask _ fun i hi => by
      have := List.mem_range'_1.1 hi
      omega]
    simp [List.mem_range'_1]

end Bits

/-! ## The invariant -/

/-- The counts of a priority and where they stand in the queue: the transfers from
the reported ones to the taken ones have their done bits, those from there to the
submitted ones their interrupt bits at the peer. -/
structure Agree (h : cfg.tx_num .normal + cfg.tx_num .high ≤ slotNum) (s : Sys) : Prop where
  reported : ∀ pri, s.reported pri <+: s.received pri
  received : ∀ pri, s.received pri <+: s.submitted pri
  in_use : ∀ pri, (s.submitted pri).length ≤ (s.reported pri).length + cfg.tx_num pri
  next : ∀ pri, 0 < cfg.tx_num pri → s.next_tx_slot pri = cfg.slot pri (s.submitted pri).length
  peer : ∀ pri, s.peer_next_rx_slot pri = if cfg.tx_num pri = 0 then slotNum else cfg.slot pri (s.received pri).length
  active : ∀ pri, s.active_tx_slot pri =
    if (s.reported pri).length = (s.submitted pri).length then slotNum else cfg.slot pri (s.reported pri).length
  full : ∀ pri, s.tx_slot_full pri = true ↔
    0 < cfg.tx_num pri ∧ (s.submitted pri).length = (s.reported pri).length + cfg.tx_num pri
  kept : ∀ pri k (h : k < (s.submitted pri).length), (s.reported pri).length ≤ k →
    s.wslot (cfg.slot pri k) = (s.submitted pri)[k]
  rmt : ∀ i, s.rmt_ris.getLsbD i = true ↔
    (cfg.lanes h).Window (fun p => (s.received p).length) (fun p => (s.submitted p).length) i
  ldone : ∀ i, s.ldone_ris.getLsbD i = true ↔
    (cfg.lanes h).Window (fun p => (s.reported p).length) (fun p => (s.received p).length) i
  lerr : s.lerr_ris = 0
  mask : cfg.tx_handler = true → ∀ pri k, 0 < cfg.tx_num pri → s.ldone_intmask.getLsbD (cfg.slot pri k) = true

variable {cfg} {h : cfg.tx_num .normal + cfg.tx_num .high ≤ slotNum} {s : Sys} {pri : Pri} {k : Nat}

theorem slot_lt (h : cfg.tx_num .normal + cfg.tx_num .high ≤ slotNum) (hpos : 0 < cfg.tx_num pri) :
    cfg.slot pri k < slotNum := by
  have hlt := Nat.mod_lt k hpos
  cases pri <;> simp only [Cfg.slot, Cfg.base] at hlt ⊢ <;> omega

/-- Within the range of a priority the next slot is the one behind, round and round. -/
theorem getNextSlot_eq (h : cfg.tx_num .normal + cfg.tx_num .high ≤ slotNum) {slot : Nat}
    (hlt : slot < cfg.base pri + cfg.tx_num pri) : getNextSlot cfg pri slot = (cfg.lanes h).after pri slot := by
  cases pri with
  | normal =>
    refine if_congr ?_ rfl rfl
    simp only [Cfg.lanes, Cfg.base] at hlt ⊢
    omega
  | high =>
    refine if_congr ?_ rfl rfl
    simp only [Cfg.lanes, Cfg.base] at hlt ⊢
    omega

theorem getNextSlot_slot (h : cfg.tx_num .normal + cfg.tx_num .high ≤ slotNum) (hpos : 0 < cfg.tx_num pri) :
    getNextSlot cfg pri (cfg.slot pri k) = cfg.slot pri (k + 1) := by
  have hlt : cfg.slot pri k < cfg.base pri + cfg.tx_num pri := Lanes.place_lt (l := cfg.lanes h) hpos
  rw [getNextSlot_eq h hlt]
  exact Lanes.after_place (l := cfg.lanes h) hpos

/-- The slots of one priority are different for less than a turn. -/
theorem slot_ne {j : Nat} (h : cfg.tx_num .normal + cfg.tx_num .high ≤ slotNum) (hjk : j < k)
    (hturn : k < j + cfg.tx_num pri) : cfg.slot pri j ≠ cfg.slot pri k :=
  Lanes.place_ne_of_lt (l := cfg.lanes h) hjk hturn

theorem slot_add (h : cfg.tx_num .normal + cfg.tx_num .high ≤ slotNum) :
    cfg.slot pri (k + cfg.tx_num pri) = cfg.slot pri k :=
  Lanes.place_add_size (l := cfg.lanes h)

/-- The full flag tells a full ring from an empty one. -/
theorem slot_eq_iff {j : Nat} (h : cfg.tx_num .normal + cfg.tx_num .high ≤ slotNum) (hjk : j < k)
    (hturn : k ≤ j + cfg.tx_num pri) : cfg.slot pri k = cfg.slot pri j ↔ k = j + cfg.tx_num pri := by
  constructor
  · intro he
    apply Classical.byContradiction
    intro hne
    exact slot_ne h hjk (by omega) he.symm
  · rintro rfl
    exact slot_add h

theorem Agree.lengths (hs : Agree cfg h s) (pri : Pri) :
    (s.reported pri).length ≤ (s.received pri).length ∧ (s.received pri).length ≤ (s.submitted pri).length :=
  ⟨(hs.reported pri).length_le, (hs.received pri).length_le⟩

/-- With something submitted the priority has slots. -/
theorem Agree.size_pos (hs : Agree cfg h s) (hlt : (s.reported pri).length < (s.submitted pri).length) :
    0 < cfg.tx_num pri := by
  have := hs.in_use pri
  omega

theorem Agree.active_eq (hs : Agree cfg h s) (hlt : (s.reported pri).length < (s.submitted pri).length) :
    s.active_tx_slot pri = cfg.slot pri (s.reported pri).length := by
  rw [hs.active pri, if_neg (Nat.ne_of_lt hlt)]

theorem Agree.active_lt (hs : Agree cfg h s) :
    s.active_tx_slot pri < slotNum ↔ (s.reported pri).length < (s.submitted pri).length := by
  have hlen := hs.lengths pri
  constructor
  · intro hlt
    apply Classical.byContradiction
    intro hnlt
    rw [hs.active pri, if_pos (by omega)] at hlt
    exact Nat.lt_irrefl _ hlt
  · intro hlt
    rw [hs.active_eq hlt]
    exact slot_lt h (hs.size_pos hlt)

theorem Agree.valid (hs : Agree cfg h s) : activeTxValid pri s.toState = true := by
  have hlen := hs.lengths pri
  have huse := hs.in_use pri
  by_cases hlt : (s.reported pri).length < (s.submitted pri).length
  · by_cases hfull : (s.submitted pri).length = (s.reported pri).length + cfg.tx_num pri
    · have := (hs.full pri).2 ⟨hs.size_pos hlt, hfull⟩
      simp [activeTxValid, this]
    · have hne : cfg.slot pri (s.reported pri).length ≠ cfg.slot pri (s.submitted pri).length :=
        slot_ne h hlt (by omega)
      simp [activeTxValid, hs.active_eq hlt, hs.next pri (hs.size_pos hlt), hne]
  · have : ¬ s.active_tx_slot pri < slotNum := fun hact => hlt (hs.active_lt.1 hact)
    simp only [activeTxValid, ge_iff_le, Nat.not_lt.1 this, decide_true, Bool.true_or]

theorem Agree.faithful (hs : Agree cfg h s) : Faithful cfg s where
  reported := hs.reported
  received := hs.received
  next := hs.next
  in_use := hs.in_use
  kept := hs.kept
  full pri data := by
    rw [← hs.full pri, halTransqTx]
    split
    · rename_i hzero
      have : ¬ s.tx_slot_full pri = true := fun hfull => by
        have := ((hs.full pri).1 hfull).1
        omega
      simp [this]
    · split
      · rename_i hfull
        simp [hfull]
      · rename_i hfull
        simp [hfull]

/-! ## Steps -/

theorem log_self {l : Pri → List Slot} {x : Slot} : log l pri x pri = l pri ++ [x] := Function.update_self ..

theorem log_other {l : Pri → List Slot} {x : Slot} {q : Pri} (hq : q ≠ pri) : log l pri x q = l q :=
  Function.update_of_ne hq ..

/-- The lengths of the logs after one more entry. -/
theorem length_log {l : Pri → List Slot} {x : Slot} :
    (fun q => (log l pri x q).length) = Function.update (fun q => (l q).length) pri ((l pri).length + 1) := by
  funext q
  by_cases hq : q = pri
  · subst hq
    rw [log_self, Function.update_self, List.length_append, List.length_singleton]
  · rw [log_other hq, Function.update_of_ne hq]

theorem prefix_log_right {l l' : Pri → List Slot} {x : Slot} (hl : ∀ q, l q <+: l' q) (q : Pri) : l q <+: log l' pri x q := by
  by_cases hq : q = pri
  · subst hq
    rw [log_self]
    exact (hl q).trans (List.prefix_append ..)
  · rw [log_other hq]
    exact hl q

theorem length_le_log (l : Pri → List Slot) (pri : Pri) (x : Slot) (q : Pri) :
    (l q).length ≤ (log l pri x q).length :=
  (prefix_log_right (fun q => List.prefix_refl (l q)) q).length_le

/-- One list catches up with another one by its next entry. -/
theorem prefix_log {l l' : Pri → List Slot} (hl : ∀ q, l q <+: l' q) (hlt : (l pri).length < (l' pri).length) (q : Pri) :
    log l pri (l' pri)[(l pri).length] q <+: l' q := by
  by_cases hq : q = pri
  · subst hq
    obtain ⟨t, ht⟩ := hl q
    cases t with
    | nil =>
      rw [← ht, List.append_nil] at hlt
      exact absurd hlt (Nat.lt_irrefl _)
    | cons x t =>
      have hx : (l' q)[(l q).length] = x := by simp only [← ht, List.getElem_append_right,
        Nat.le_refl, Nat.sub_self, List.getElem_cons_zero]
      rw [log_self, hx]
      exact ⟨t, by rw [List.append_assoc, List.singleton_append, ht]⟩
  · rw [log_other hq]
    exact hl q

/-- The slot of the next transfer holds no transfer in progress. -/
theorem Agree.next_free (hs : Agree cfg h s) (hpos : 0 < cfg.tx_num pri)
    (hroom : (s.submitted pri).length < (s.reported pri).length + cfg.tx_num pri) {q : Pri}
    (hlo : (s.reported q).length ≤ k) (hhi : k < (s.submitted q).length) :
    cfg.slot q k ≠ cfg.slot pri (s.submitted pri).length := by
  intro he
  have huse := hs.in_use q
  have hlen := hs.lengths q
  obtain rfl : q = pri := Lanes.lane_eq (l := cfg.lanes h) (hs.size_pos (by omega)) hpos he
  exact slot_ne h hhi (by omega) he

/-- A transfer is accepted while a slot is free. -/
theorem Agree.tx (hs : Agree cfg h s) {data : Slot} {s' : State} (htx : halTransqTx cfg pri data s.toState = (.ok, s')) :
    Agree cfg h { s with toState := s', submitted := log s.submitted pri data } := by
  unfold halTransqTx at htx
  split at htx
  · simp at htx
  rename_i hzero
  split at htx
  · simp at htx
  rename_i hfull
  have hpos : 0 < cfg.tx_num pri := Nat.pos_of_ne_zero hzero
  have huse := hs.in_use pri
  have hlen := hs.lengths pri
  have hroom : (s.submitted pri).length < (s.reported pri).length + cfg.tx_num pri := by
    apply Nat.lt_of_le_of_ne huse
    exact fun he => hfull ((hs.full pri).2 ⟨hpos, he⟩)
  have hslot : cfg.slot pri (s.submitted pri).length < slotNum := slot_lt h hpos
  simp only [Prod.mk.injEq, true_and, hs.next pri hpos, getNextSlot_slot h hpos] at htx
  have hactive : (if s.active_tx_slot pri ≥ slotNum then cfg.slot pri (s.submitted pri).length else s.active_tx_slot pri) =
      cfg.slot pri (s.reported pri).length := by
    split
    · rename_i hidle
      have : ¬ (s.reported pri).length < (s.submitted pri).length := fun hlt =>
        absurd (hs.active_lt.2 hlt) (Nat.not_lt.2 hidle)
      congr 1
      omega
    · rename_i hbusy
      exact hs.active_eq (hs.active_lt.1 (Nat.not_le.1 hbusy))
  rw [hactive] at htx
  subst htx
  refine ⟨hs.reported, prefix_log_right hs.received, ?_, ?_, hs.peer, ?_, ?_, ?_, ?_, hs.ldone, ?_, hs.mask⟩
  · intro q
    by_cases hq : q = pri
    · subst hq
      simp only [log_self, List.length_append, List.length_singleton]
      omega
    · simp only [log_other hq]
      exact hs.in_use q
  · intro q hposq
    by_cases hq : q = pri
    · subst hq
      simp only [Function.update_self, log_self, List.length_append, List.length_singleton]
    · simp only [Function.update_of_ne hq, log_other hq]
      exact hs.next q hposq
  · intro q
    by_cases hq : q = pri
    · subst hq
      simp only [Function.update_self, log_self, List.length_append, List.length_singleton]
      rw [if_neg (by omega)]
    · simp only [Function.update_of_ne hq, log_other hq]
      exact hs.active q
  · intro q
    by_cases hq : q = pri
    · subst hq
      simp only [Function.update_self, log_self, List.length_append, List.length_singleton, hfull, Bool.false_or,
        beq_iff_eq, hpos, true_and]
      rw [slot_eq_iff h (by omega) (by omega)]
    · simp only [Function.update_of_ne hq, log_other hq]
      exact hs.full q
  · intro q k hk hlo
    by_cases hlast : q = pri ∧ k = (s.submitted pri).length
    · obtain ⟨rfl, rfl⟩ := hlast
      simp [log_self]
    · have hhi : k < (s.submitted q).length := by
        by_cases hq : q = pri
        · subst hq
          simp only [log_self, List.length_append, List.length_singleton] at hk
          simp only [true_and] at hlast
          omega
        · simpa only [log_other hq] using hk
      have hkept := hs.kept q k hhi hlo
      simp only [Function.update_of_ne (hs.next_free hpos hroom hlo hhi), hkept]
      by_cases hq : q = pri
      · subst hq
        simp only [log_self, List.getElem_append_left hhi]
      · simp only [log_other hq]
  · intro i
    simp only [or_shl hslot, length_log]
    rw [Lanes.window_push (l := cfg.lanes h) (fun p => (s.received p).length)
      (fun p => (s.submitted p).length) hlen.2, hs.rmt]
    rfl
  · have hfree : s.rmt_ris &&& shl 0 (cfg.slot pri (s.submitted pri).length) = 0 := by
      apply Classical.byContradiction
      intro hne
      obtain ⟨q, k, hlo, hhi, he⟩ := (hs.rmt _).1 ((and_shl hslot).1 hne)
      have hlenq := hs.lengths q
      exact hs.next_free hpos hroom (Nat.le_trans hlenq.1 hlo) hhi he
    simp only [hfree, hs.lerr]
    rfl

/-- The next transfer that the peer takes, or that is reported, is in its slot. -/
theorem Agree.kept_received (hs : Agree cfg h s) (hlo : (s.reported pri).length ≤ k) (hk : k < (s.received pri).length) :
    s.wslot (cfg.slot pri k) = (s.received pri)[k] := by
  have hlen := hs.lengths pri
  rw [hs.kept pri k (by omega) hlo]
  exact ((hs.received pri).getElem hk).symm

/-- What `finishTx` makes of the oldest transfer in progress. -/
theorem Agree.finishTx_eq (hs : Agree cfg h s) {bit : BitVec 32}
    (hlt : (s.reported pri).length < (s.submitted pri).length) :
    finishTx cfg pri (cfg.slot pri (s.reported pri).length) bit s.toState =
      { s.toState with
        ldone_ris := s.ldone_ris &&& ~~~bit
        tx_slot_full := Function.update s.tx_slot_full pri false
        active_tx_slot := Function.update s.active_tx_slot pri
          (if (s.reported pri).length + 1 = (s.submitted pri).length then slotNum
            else cfg.slot pri ((s.reported pri).length + 1)) } := by
  have huse := hs.in_use pri
  have hpos := hs.size_pos hlt
  simp only [finishTx, getNextSlot_slot h hpos, hs.next pri hpos, Bool.and_eq_true, Bool.not_eq_true', beq_iff_eq]
  by_cases hfull : s.tx_slot_full pri = true
  · -- a full ring: there is a slot in progress behind this one, unless it has one slot only
    have hturn := ((hs.full pri).1 hfull).2
    rw [if_neg (by simp [hfull])]
    congr 2
    exact if_congr (by omega) rfl rfl
  · rw [Bool.not_eq_true] at hfull
    have hnfull : (s.submitted pri).length ≠ (s.reported pri).length + cfg.tx_num pri := by
      intro he
      simp [(hs.full pri).2 ⟨hpos, he⟩] at hfull
    have hsame : Function.update s.tx_slot_full pri false = s.tx_slot_full := by
      rw [← hfull, Function.update_eq_self]
    rw [hsame]
    by_cases hlast : (s.reported pri).length + 1 = (s.submitted pri).length
    · rw [if_pos ⟨hfull, by rw [hlast]⟩, if_pos hlast]
    · have hne : cfg.slot pri ((s.reported pri).length + 1) ≠ cfg.slot pri (s.submitted pri).length :=
        slot_ne h (by omega) (by omega)
      rw [if_neg (by simp [hne]), if_neg hlast, if_neg (by omega)]

/-- The done bit of the oldest transfer in progress is cleared, and the transfer reported. -/
theorem Agree.finish (hs : Agree cfg h s) {v : BitVec 32} (hlt : (s.reported pri).length < (s.received pri).length) :
    Agree cfg h { s with
      toState := finishTx cfg pri (s.active_tx_slot pri) (shl v (s.active_tx_slot pri)) s.toState
      reported := log s.reported pri (s.wslot (s.active_tx_slot pri)) } := by
  have huse := hs.in_use pri
  have hlen := hs.lengths pri
  have hsub : (s.reported pri).length < (s.submitted pri).length := by omega
  have hslot : cfg.slot pri (s.reported pri).length < slotNum := slot_lt h (hs.size_pos hsub)
  rw [hs.active_eq hsub, hs.finishTx_eq hsub, hs.kept_received (Nat.le_refl _) hlt]
  refine ⟨prefix_log hs.reported hlt, hs.received, ?_, hs.next, hs.peer, ?_, ?_, ?_, hs.rmt, ?_, hs.lerr, hs.mask⟩
  · intro q
    have := length_le_log s.reported pri (s.received pri)[(s.reported pri).length] q
    have := hs.in_use q
    dsimp only
    omega
  · intro q
    by_cases hq : q = pri
    · subst hq
      simp only [Function.update_self, log_self, List.length_append, List.length_singleton]
    · simp only [Function.update_of_ne hq, log_other hq]
      exact hs.active q
  · intro q
    by_cases hq : q = pri
    · subst hq
      simp only [Function.update_self, log_self, List.length_append, List.length_singleton, Bool.false_eq_true,
        false_iff]
      omega
    · simp only [Function.update_of_ne hq, log_other hq]
      exact hs.full q
  · intro q k hk hlo
    have := length_le_log s.reported pri (s.received pri)[(s.reported pri).length] q
    dsimp only at hlo
    exact hs.kept q k hk (by omega)
  · intro i
    have hsize : ∀ q, (s.reported q).length < (s.received q).length → 0 < cfg.tx_num q := fun q hq =>
      hs.size_pos (Nat.lt_of_lt_of_le hq (hs.lengths q).2)
    have hturn : ∀ q, (s.received q).length ≤ (s.reported q).length + cfg.tx_num q := fun q =>
      Nat.le_trans (hs.lengths q).2 (hs.in_use q)
    simp only [clear_shl hslot, hs.ldone, length_log]
    rw [Lanes.window_pop (l := cfg.lanes h) (fun p => (s.reported p).length)
      (fun p => (s.received p).length) hsize hturn hlt]
    rfl

/-- The peer takes the next transfer of a priority. -/
theorem Agree.takes (hs : Agree cfg h s) {data : Slot} {s' : State} (hrx : peerRxNext cfg pri s.toState = (some data, s')) :
    Agree cfg h { s with toState := s', received := log s.received pri data } := by
  have hlen := hs.lengths pri
  simp only [peerRxNext] at hrx
  split at hrx
  · rename_i hbit
    obtain ⟨hslot, hbit⟩ := hbit
    rw [hs.peer pri] at hslot hbit hrx
    split at hslot
    · exact absurd hslot (Nat.lt_irrefl _)
    rename_i hzero
    have hpos := Nat.pos_of_ne_zero hzero
    rw [if_neg hzero] at hbit hrx
    -- the interrupt bit is set for a transfer that the peer has not taken
    obtain ⟨q, k, hlo, hhi, he⟩ := (hs.rmt _).1 ((and_shl hslot).1 hbit)
    have hlenq := hs.lengths q
    dsimp only at hlo hhi
    obtain rfl : q = pri := Lanes.lane_eq (l := cfg.lanes h) (hs.size_pos (by omega)) hpos he
    have hlt : (s.received q).length < (s.submitted q).length := by omega
    rw [hs.kept q _ hlt hlen.1, Prod.mk.injEq, Option.some.injEq] at hrx
    obtain ⟨rfl, rfl⟩ := hrx
    refine ⟨prefix_log_right hs.reported, prefix_log hs.received hlt, hs.in_use, hs.next, ?_, hs.active, hs.full, hs.kept, ?_,
      ?_, hs.lerr, hs.mask⟩
    · intro p
      by_cases hp : p = q
      · subst hp
        simp only [Function.update_self, log_self, List.length_append, List.length_singleton, getNextSlot_slot h hpos,
          if_neg hzero]
      · simp only [Function.update_of_ne hp, log_other hp]
        exact hs.peer p
    · intro i
      have hsize : ∀ q, (s.received q).length < (s.submitted q).length → 0 < cfg.tx_num q := fun q hq =>
        hs.size_pos (Nat.lt_of_le_of_lt (hs.lengths q).1 hq)
      have hturn : ∀ q, (s.submitted q).length ≤ (s.received q).length + cfg.tx_num q := fun q =>
        Nat.le_trans (hs.in_use q) (Nat.add_le_add_right (hs.lengths q).1 _)
      simp only [clear_shl hslot, hs.rmt, length_log]
      rw [Lanes.window_pop (l := cfg.lanes h) (fun p => (s.received p).length)
        (fun p => (s.submitted p).length) hsize hturn hlt]
      rfl
    · intro i
      simp only [or_shl hslot, hs.ldone, length_log]
      rw [Lanes.window_push (l := cfg.lanes h) (fun p => (s.reported p).length)
        (fun p => (s.received p).length) hlen.1]
      rfl
  · simp at hrx

/-- The done bit of the slot that is looked at belongs to the oldest transfer in progress. -/
theorem Agree.done_iff (hs : Agree cfg h s) (hlt : s.active_tx_slot pri < slotNum) {v : BitVec 32} :
    s.ldone_ris &&& shl v (s.active_tx_slot pri) ≠ 0 ↔ (s.reported pri).length < (s.received pri).length := by
  have hsub := hs.active_lt.1 hlt
  have hpos := hs.size_pos hsub
  rw [and_shl hlt, hs.ldone, hs.active_eq hsub]
  constructor
  · rintro ⟨q, k, hlo, hhi, he⟩
    have hlen := hs.lengths q
    dsimp only at hlo hhi
    obtain rfl : q = pri := Lanes.lane_eq (l := cfg.lanes h) (hs.size_pos (by omega)) hpos he
    omega
  · intro hdone
    exact Lanes.Window.first (l := cfg.lanes h) (fun p => (s.reported p).length) _ hdone

/-- The same for the masked bits that the handler reads. -/
theorem Agree.masked_iff (hs : Agree cfg h s) (hmode : cfg.tx_handler = true) :
    (s.active_tx_slot pri < slotNum ∧ s.ldone_ris &&& s.ldone_intmask &&& shl 0 (s.active_tx_slot pri) ≠ 0) ↔
      (s.reported pri).length < (s.received pri).length := by
  have hlen := hs.lengths pri
  constructor
  · rintro ⟨hlt, hbit⟩
    rw [and_shl hlt, BitVec.getLsbD_and, Bool.and_eq_true] at hbit
    exact (hs.done_iff hlt (v := 0)).1 ((and_shl hlt).2 hbit.1)
  · intro hdone
    have hlt : s.active_tx_slot pri < slotNum := hs.active_lt.2 (by omega)
    refine ⟨hlt, ?_⟩
    have hbit := (and_shl hlt).1 ((hs.done_iff hlt (v := 0)).2 hdone)
    have hmask := hs.mask hmode pri (s.reported pri).length (hs.size_pos (by omega))
    rw [← hs.active_eq (by omega)] at hmask
    rw [and_shl hlt, BitVec.getLsbD_and, hbit, hmask]
    rfl

/-- A turn of the interrupt handler: its assertions hold, and it does nothing, masks
the interrupt, or reports the oldest transfer of a priority that is done. -/
theorem Agree.irq_cases (hs : Agree cfg h s) :
    halTransqLocalIrqHandler cfg s.toState = some (none, s.toState) ∨
    (cfg.tx_handler = false ∧ halTransqLocalIrqHandler cfg s.toState = some (none, { s.toState with ldone_intmask := 0 })) ∨
    ∃ pri, (s.reported pri).length < (s.received pri).length ∧
      halTransqLocalIrqHandler cfg s.toState = some (some (pri, s.wslot (s.active_tx_slot pri)),
        finishTx cfg pri (s.active_tx_slot pri) (shl 0 (s.active_tx_slot pri)) s.toState) := by
  have herr : ¬ s.lerr_ris &&& s.lerr_intmask ≠ 0 := by
    rw [hs.lerr]
    simp
  simp only [halTransqLocalIrqHandler, if_neg herr, hs.valid, Bool.and_self, if_true]
  by_cases hstatus : s.ldone_ris &&& s.ldone_intmask = 0
  · exact .inl (if_pos hstatus)
  rw [if_neg hstatus]
  cases hmode : cfg.tx_handler with
  | false => exact .inr (.inl ⟨rfl, if_neg Bool.false_ne_true⟩)
  | true =>
    refine .inr (.inr ?_)
    rw [if_pos rfl]
    by_cases hhigh : (s.reported .high).length < (s.received .high).length
    · refine ⟨.high, hhigh, ?_⟩
      rw [if_pos ((hs.masked_iff hmode).2 hhigh)]
    · -- some bit is set, and it is not one of a slot of the high priority
      have hnormal : (s.reported .normal).length < (s.received .normal).length := by
        apply Classical.byContradiction
        intro hnormal
        apply hstatus
        apply BitVec.eq_of_getLsbD_eq
        intro i _
        simp only [BitVec.getLsbD_and, BitVec.ofNat_eq_ofNat, BitVec.getLsbD_zero, Bool.and_eq_false_iff]
        left
        rw [← Bool.not_eq_true, hs.ldone i]
        rintro ⟨q, k, hlo, hhi, -⟩
        dsimp only at hlo hhi
        cases q <;> omega
      refine ⟨.normal, hnormal, ?_⟩
      rw [if_neg fun hb => hhigh ((hs.masked_iff hmode).1 hb), if_pos ((hs.masked_iff hmode).2 hnormal)]

theorem Agree.irq (hs : Agree cfg h s) {v : BitVec 32} : ∃ s', step cfg v .irq s = some s' ∧ Agree cfg h s' := by
  rcases hs.irq_cases with he | ⟨hmode, he⟩ | ⟨pri, hdone, he⟩
  · exact ⟨s, by rw [step, he], hs⟩
  · refine ⟨{ s with ldone_intmask := 0 }, by rw [step, he], ?_⟩
    exact { hs with mask := fun hm => by simp [hmode] at hm }
  · refine ⟨_, by rw [step, he], hs.finish hdone⟩

/-- A poll that the code covers reports the oldest transfer in progress, if it is done, or nothing. -/
theorem Agree.poll (hs : Agree cfg h s) {v : BitVec 32} (hcov : Covered v (.poll pri) s) :
    ∃ s', step cfg v (.poll pri) s = some s' ∧ Agree cfg h s' := by
  simp only [step, halTransqGetTxStatus]
  by_cases hzero : cfg.tx_num pri = 0
  · exact ⟨s, by rw [if_pos hzero], hs⟩
  rw [if_neg hzero]
  by_cases hmode : cfg.tx_handler = true
  · exact ⟨s, by rw [if_pos hmode], hs⟩
  rw [if_neg hmode, if_pos hs.valid]
  by_cases hbit : s.ldone_ris &&& shl v (s.active_tx_slot pri) ≠ 0
  · rw [if_pos hbit]
    have hlt : s.active_tx_slot pri < slotNum := by
      rcases hcov with hlt | hzero
      · exact hlt
      · apply Classical.byContradiction
        intro hnlt
        exact hbit (by rw [shl, if_neg hnlt, hzero])
    exact ⟨_, rfl, hs.finish ((hs.done_iff hlt).1 hbit)⟩
  · rw [if_neg hbit]
    exact ⟨s, rfl, hs⟩

/-- No step that the code covers trips an assertion, and all keep the invariant. -/
theorem Agree.step (hs : Agree cfg h s) {v : BitVec 32} {e : Event} (hcov : Covered v e s) :
    ∃ s', step cfg v e s = some s' ∧ Agree cfg h s' := by
  cases e with
  | irq => exact hs.irq
  | poll pri => exact hs.poll hcov
  | tx pri data =>
    cases htx : halTransqTx cfg pri data s.toState with
    | mk ret s' =>
      by_cases hok : ret = .ok
      · subst hok
        exact ⟨_, by rw [Transq.step, htx], hs.tx htx⟩
      · -- a refused transfer changes nothing
        have hsame : s' = s.toState := by
          unfold halTransqTx at htx
          split at htx
          · exact (Prod.mk.inj htx).2.symm
          · split at htx
            · exact (Prod.mk.inj htx).2.symm
            · exact absurd (Prod.mk.inj htx).1.symm hok
        subst hsame
        refine ⟨s, ?_, hs⟩
        rw [Transq.step, htx]
        cases ret <;> first | rfl | exact absurd rfl hok
  | peer pri =>
    cases hrx : peerRxNext cfg pri s.toState with
    | mk data s' =>
      cases data with
      | some data => exact ⟨_, by rw [Transq.step, hrx], hs.takes hrx⟩
      | none =>
        have hsame : s' = s.toState := by
          simp only [peerRxNext] at hrx
          split at hrx
          · simp at hrx
          · exact (Prod.mk.inj hrx).2.symm
        subst hsame
        exact ⟨s, by rw [Transq.step, hrx], hs⟩

theorem opened_agree (hopen : Opened cfg s) : ∃ h, Agree cfg h s := by
  obtain ⟨hopen, hsub, hrec, hrep⟩ := hopen
  unfold halTransqOpen at hopen
  split at hopen
  · cases hopen
  rename_i hnum
  have h : cfg.tx_num .normal + cfg.tx_num .high ≤ slotNum := Nat.not_lt.1 hnum
  have hempty (lo : Pri → Nat) (i : Nat) : (0 : BitVec 32).getLsbD i = true ↔ (cfg.lanes h).Window lo lo i := by
    simp only [BitVec.ofNat_eq_ofNat, BitVec.getLsbD_zero, Bool.false_eq_true, false_iff]
    exact Lanes.Window.not_of_empty fun _ => rfl
  obtain ⟨st, sub, rec, rep⟩ := s
  obtain rfl := Option.some.inj hopen
  subst hsub hrec hrep
  refine ⟨h, fun _ => List.prefix_refl _, fun _ => List.prefix_refl _, by simp, ?_, ?_, ?_, ?_, ?_, hempty _, hempty _,
    rfl, ?_⟩
  · intro pri hpos
    simp [Nat.ne_of_gt hpos, Cfg.slot]
  · intro pri
    simp [Cfg.slot]
  · simp
  · intro pri
    simp only [Bool.false_eq_true, List.length_nil, false_iff]
    omega
  · intro pri k hk
    cases hk
  · intro hmode pri k hpos
    have hlt := Nat.mod_lt k hpos
    simp only [hmode, if_true, BitVec.getLsbD_or, Bool.or_eq_true]
    rw [constructMask_getLsbD (by omega), constructMask_getLsbD (by omega)]
    cases pri <;> simp only [Cfg.slot, Cfg.base] at hlt ⊢ <;> omega

/-- In every run whose polls are covered, from any configuration that is accepted:
the transfers of each priority are reported once and in order, after the peer has
taken them, no slot is used before its transfer is reported, a refusal means that
all slots are in use, and no assertion fails. -/
theorem transfers_in_order (v : BitVec 32) {evs : List Event}
    (hrun : Run (step cfg v) (Covered v) (Opened cfg) s evs) :
    Faithful cfg s ∧ ∀ e, Covered v e s → (step cfg v e s).isSome := by
  have hinv : ∃ h, Agree cfg h s := by
    apply hrun.inv (fun s => ∃ h, Agree cfg h s)
    · intro s hopen
      exact opened_agree hopen
    · rintro e s s' ⟨h, hs⟩ hcov hstep
      obtain ⟨s₁, h₁, hs₁⟩ := hs.step hcov
      cases hstep.symm.trans h₁
      exact ⟨h, hs₁⟩
  obtain ⟨h, hs⟩ := hinv
  refine ⟨hs.faithful, ?_⟩
  intro e hcov
  obtain ⟨s', hstep, -⟩ := hs.step hcov
  rw [hstep]
  rfl

/-- A queue that has been opened. -/
def opened (cfg : Cfg) : Option Sys :=
  (halTransqOpen cfg).map fun s => ⟨s, fun _ => [], fun _ => [], fun _ => []⟩

theorem opened_spec (h : opened cfg = some s) : Opened cfg s := by
  obtain ⟨st, hst, rfl⟩ := Option.map_eq_some_iff.1 h
  exact ⟨hst, rfl, rfl, rfl⟩

/-- Two slots for the normal priority and one for the high one, both found by polling. -/
def polledCfg : Cfg := ⟨fun | .normal => 2 | .high => 1, false⟩

theorem transfers_in_order_polled : ∃ s evs, Run (step polledCfg 1) (Covered 1) (Opened polledCfg) s evs ∧
    s.reported .normal = [⟨10, 1⟩, ⟨11, 1⟩] ∧ Faithful polledCfg s := by
  obtain ⟨s, hrun, hgood⟩ := exists_run_of_check (step polledCfg 1) (Covered 1) (Opened polledCfg) (opened polledCfg)
    [.tx .normal ⟨10, 1⟩, .tx .normal ⟨11, 1⟩, .tx .normal ⟨12, 1⟩, .peer .normal, .poll .normal, .tx .normal ⟨13, 1⟩,
      .peer .normal, .poll .normal]
    (fun s => s.reported .normal == [⟨10, 1⟩, ⟨11, 1⟩]) (fun _ => opened_spec) (by decide)
  exact ⟨s, _, hrun, by simpa using hgood, (transfers_in_order 1 hrun).1⟩

/-- With nothing in progress a poll of the high priority shifts by 32. Where this
gives 1, it reports a transfer that nobody submitted, and takes the done bit from
the transfer of the normal priority in slot 0. -/
theorem poll_reports_nothing : ∃ s evs, Run (step polledCfg 1) (fun _ _ => True) (Opened polledCfg) s evs ∧
    s.submitted .high = [] ∧ s.reported .high ≠ [] ∧ ¬ Faithful polledCfg s := by
  obtain ⟨s, hrun, hgood⟩ := exists_run_of_check (step polledCfg 1) (fun _ _ => True) (Opened polledCfg) (opened polledCfg)
    [.tx .normal ⟨10, 1⟩, .peer .normal, .poll .high]
    (fun s => s.submitted .high == [] && s.received .high == [] && s.reported .high != []) (fun _ => opened_spec)
    (by decide)
  simp only [Bool.and_eq_true, beq_iff_eq, bne_iff_ne] at hgood
  obtain ⟨⟨hsub, hrec⟩, hrep⟩ := hgood
  refine ⟨s, _, hrun, hsub, hrep, ?_⟩
  intro hf
  have := hf.reported .high
  rw [hrec, List.prefix_nil] at this
  exact hrep this

end Hal.Transq
