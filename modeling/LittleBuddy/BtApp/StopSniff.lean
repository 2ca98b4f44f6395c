import Mathlib.Data.List.Basic
import Mathlib.Tactic.Common
/-!
# Pending exits from sniff mode

`services/bt_app/app_bt_func.cpp` keeps the devices whose exit from sniff mode
the controller could not start yet in an array of eight slots, with a bit mask
of the slots in use. `app_add_pending_stop_sniff_op` adds a device, and
`app_check_pending_stop_sniff_op` tries again. Next to the slots the system
carries the devices that still wait.
-/

namespace BtApp.StopSniff

/-! ## The code -/

/-- `COUNT_OF_PENDING_REMOTE_DEV_TO_EXIT_SNIFF_MODE`. -/
abbrev devCount : Nat := 8

/-- `pendingRemoteDevToExitSniffMode` and its mask. -/
structure Pending (Dev : Type) where
  dev : Nat → Dev
  mask : BitVec 8

/-- What the stack says about a device during a check. -/
structure Link where
  opInProgress : Bool
  connected : Bool
  sniffMode : Bool
  /-- Whether `btif_me_stop_sniff` returns `BT_STS_IN_PROGRESS`. -/
  stopInProgress : Bool

variable {Dev : Type}

def Pending.marked (s : Pending Dev) (index : Nat) : Bool := s.mask.getLsbD index

/-- `mask |= 1 << index` and `mask &= ~(1 << index)`. -/
def setBit (mask : BitVec 8) (index : Nat) : BitVec 8 := mask ||| (1#8 <<< index)
def clearBit (mask : BitVec 8) (index : Nat) : BitVec 8 := mask &&& ~~~(1#8 <<< index)

/-- The loop of `app_check_pending_stop_sniff_op` over the slots, with the
device for which `btif_me_stop_sniff` was accepted; the loop ends at that one. -/
def checkLoop (link : Dev → Link) (s : Pending Dev) : List Nat → Option Dev × Pending Dev
  | [] => (none, s)
  | index :: rest =>
    if s.marked index then
      let remDev := s.dev index
      if !(link remDev).opInProgress && (link remDev).connected && (link remDev).sniffMode &&
          !(link remDev).stopInProgress then
        (some remDev, { s with mask := clearBit s.mask index })
      else checkLoop link s rest
    else checkLoop link s rest

/-- `app_check_pending_stop_sniff_op`, with whether it calls `osapi_notify_evm`. -/
def appCheckPendingStopSniffOp (link : Dev → Link) (s : Pending Dev) : Option Dev × Bool × Pending Dev :=
  if s.mask ≠ 0 then
    let (accepted, s) := checkLoop link s (List.range devCount)
    (accepted, decide (s.mask ≠ 0), s)
  else (none, false, s)

/-- The second loop of `app_add_pending_stop_sniff_op`. It does not end at the
slot it has taken. -/
def addLoop (remDev : Dev) (s : Pending Dev) : List Nat → Pending Dev
  | [] => s
  | index :: rest =>
    if s.marked index then addLoop remDev s rest
    else addLoop remDev { dev := Function.update s.dev index remDev, mask := setBit s.mask index } rest

variable [DecidableEq Dev]

/-- `app_add_pending_stop_sniff_op`. -/
def appAddPendingStopSniffOp (remDev : Dev) (s : Pending Dev) : Pending Dev :=
  if (List.range devCount).any fun index => s.marked index && decide (s.dev index = remDev) then s
  else addLoop remDev s (List.range devCount)

/-- `app_bt_mail_process` of a `ME_StopSniff_req`. -/
def appBtMailProcessStopSniff (remDev : Dev) (connected inProgress : Bool) (s : Pending Dev) : Pending Dev :=
  if connected && inProgress then appAddPendingStopSniffOp remDev s else s

/-! ## Runs -/

inductive Event (Dev : Type) where
  | request (remDev : Dev) (connected inProgress : Bool)
  | check (link : Dev → Link)

/-- The slots, and the devices that still wait. -/
structure Sys (Dev : Type) where
  code : Pending Dev
  waiting : List Dev

/-- A device waits from its request until its exit is accepted or it is no
longer connected in sniff mode. -/
def step (s : Sys Dev) : Event Dev → Sys Dev
  | .request remDev connected inProgress =>
    { code := appBtMailProcessStopSniff remDev connected inProgress s.code
      waiting := if connected && inProgress && decide (remDev ∉ s.waiting) then s.waiting ++ [remDev] else s.waiting }
  | .check link =>
    let (accepted, _, code) := appCheckPendingStopSniffOp link s.code
    { code, waiting := s.waiting.filter fun d =>
        decide (accepted ≠ some d) && (link d).connected && (link d).sniffMode }

/-- The slots are static data: no slot is marked. -/
def Initial (s : Sys Dev) : Prop := s.code.mask = 0 ∧ s.waiting = []

/-- The marked slots of a device. -/
def slotsOf (s : Pending Dev) (d : Dev) : List Nat :=
  (List.range devCount).filter fun index => s.marked index && decide (s.dev index = d)

/-- The marked slots hold each waiting device once, and no other device. -/
def Faithful (s : Sys Dev) : Prop := ∀ d, (slotsOf s.code d).length = if d ∈ s.waiting then 1 else 0

/-- The device of an event is added to the slots. -/
def Adds : Event Dev → Prop
  | .request _ connected inProgress => connected = true ∧ inProgress = true
  | .check _ => False

/-! ## What an added device does to the slots -/

variable {s : Pending Dev} {remDev : Dev}

theorem getLsbD_setBit {mask : BitVec 8} {index i : Nat} (h : index < devCount) :
    (setBit mask index).getLsbD i = (mask.getLsbD i || decide (i = index)) := by
  unfold setBit
  rw [BitVec.getLsbD_or, ← BitVec.twoPow_eq, BitVec.getLsbD_twoPow]
  congr 1
  simp only [eq_comm (a := index), Bool.and_eq_right_iff_imp, decide_eq_true_eq]
  rintro rfl
  exact h

omit [DecidableEq Dev] in
/-- The loop marks every slot it passes; a slot that was free gets the device. -/
theorem addLoop_spec (remDev : Dev) : ∀ (l : List Nat) (s : Pending Dev), (∀ index ∈ l, index < devCount) →
    ∀ i, (addLoop remDev s l).marked i = (s.marked i || decide (i ∈ l)) ∧
      (addLoop remDev s l).dev i = if i ∈ l ∧ s.marked i = false then remDev else s.dev i := by
  intro l
  induction l with
  | nil => intro s _ i; simp [addLoop]
  | cons index rest ih =>
    intro s hl i
    have hrest : ∀ j ∈ rest, j < devCount := fun j hj => hl j (List.mem_cons_of_mem _ hj)
    unfold addLoop
    by_cases hm : s.marked index
    · obtain ⟨h₁, h₂⟩ := ih s hrest i
      rw [if_pos hm, h₁, h₂]
      by_cases hi : i = index
      · subst hi; simp [hm]
      · simp [hi]
    · have hset : ∀ dev : Nat → Dev, Pending.marked ⟨dev, setBit s.mask index⟩ i = (s.marked i || decide (i = index)) :=
        fun _ => getLsbD_setBit (hl index (List.mem_cons_self ..))
      obtain ⟨h₁, h₂⟩ := ih ⟨Function.update s.dev index remDev, setBit s.mask index⟩ hrest i
      rw [if_neg hm, h₁, h₂, hset]
      by_cases hi : i = index
      · subst hi; simp [hm]
      · simp [hi]

/-- An add of a device without a slot leaves no slot free, and all that were
free hold the device. -/
theorem slotsOf_add (hnew : ∀ index < devCount, s.marked index = true → s.dev index ≠ remDev) :
    slotsOf (appAddPendingStopSniffOp remDev s) remDev =
      (List.range devCount).filter fun index => !s.marked index := by
  have hany : ¬ ((List.range devCount).any fun index => s.marked index && decide (s.dev index = remDev)) = true := by
    simpa using hnew
  unfold slotsOf appAddPendingStopSniffOp
  rw [if_neg hany]
  apply List.filter_congr
  intro i hi
  obtain ⟨hmark, hdev⟩ := addLoop_spec remDev (List.range devCount) s (fun _ => List.mem_range.1) i
  rw [hmark, hdev]
  cases hm : s.marked i with
  | false => simp [hi]
  | true => simpa [hm] using hnew i (List.mem_range.1 hi) hm

/-! ## Whole runs -/

/-- Without an added device nothing waits and no slot is marked. -/
theorem initial_step {s : Sys Dev} {e : Event Dev} (h : Initial s) (he : ¬ Adds e) : Initial (step s e) := by
  obtain ⟨hmask, hwaiting⟩ := h
  cases e with
  | request remDev connected inProgress =>
    have hno : (connected && inProgress) = false := by simpa [Adds] using he
    simp [step, Initial, appBtMailProcessStopSniff, hno, hmask, hwaiting]
  | check link => simp [step, Initial, appCheckPendingStopSniffOp, hmask, hwaiting]

theorem initial_run {s : Sys Dev} {evs : List (Event Dev)} (h : Initial s) (he : ∀ e ∈ evs, ¬ Adds e) :
    Initial (evs.foldl step s) := by
  induction evs generalizing s with
  | nil => exact h
  | cons e evs ih =>
    exact ih (initial_step h (he e (List.mem_cons_self ..))) fun e' he' => he e' (List.mem_cons_of_mem _ he')

theorem Initial.faithful {s : Sys Dev} (h : Initial s) : Faithful s := by
  intro d
  simp [slotsOf, Pending.marked, h.1, h.2]

/-- The first device that is added takes all eight slots. -/
theorem Initial.not_faithful_step {s : Sys Dev} {e : Event Dev} (h : Initial s) (he : Adds e) :
    ¬ Faithful (step s e) := by
  obtain ⟨hmask, hwaiting⟩ := h
  cases e with
  | check link => exact he.elim
  | request remDev connected inProgress =>
    obtain ⟨rfl, rfl⟩ := he
    intro hf
    have hslots : slotsOf (step s (.request remDev true true)).code remDev =
        (List.range devCount).filter fun index => !s.code.marked index :=
      slotsOf_add fun index _ hm => by simp [Pending.marked, hmask] at hm
    have hone := hf remDev
    rw [hslots] at hone
    simp [step, hwaiting, Pending.marked, hmask, devCount] at hone

/-- The slots are faithful all through a run exactly if no device is ever added. -/
theorem faithful_iff {s : Sys Dev} (h : Initial s) (evs : List (Event Dev)) :
    (∀ past, past <+: evs → Faithful (past.foldl step s)) ↔ ∀ e ∈ evs, ¬ Adds e := by
  constructor
  · intro hf
    by_contra! hadd
    -- cut the run before the first device that is added
    induction evs generalizing s with
    | nil => simp at hadd
    | cons e evs ih =>
      by_cases he : Adds e
      · exact h.not_faithful_step he (hf [e] (by simp))
      · apply ih (initial_step h he)
        · intro past hpast
          exact hf (e :: past) (List.cons_prefix_cons.2 ⟨rfl, hpast⟩)
        · simpa [he] using hadd
  · intro he past hpast
    exact (initial_run h fun e hm => he e (hpast.subset hm)).faithful

/-- A state with no slot marked, for the witness. -/
def poweredOn : Sys Nat := ⟨⟨fun _ => 0, 0⟩, []⟩

theorem faithful_iff_example : Faithful (step poweredOn (.check fun _ => ⟨false, true, true, false⟩)) := by
  have hrun := (faithful_iff (s := poweredOn) ⟨rfl, rfl⟩ [.check fun _ => ⟨false, true, true, false⟩]).2 (by simp [Adds])
  exact hrun [.check fun _ => ⟨false, true, true, false⟩] (List.prefix_refl _)

/-- One request of one device that the controller answers with in progress: one
device waits, and all eight slots hold it. -/
theorem device_in_every_slot : ∃ s : Sys Nat, Initial s ∧
    (step s (.request 7 true true)).waiting = [7] ∧
    slotsOf (step s (.request 7 true true)).code 7 = [0, 1, 2, 3, 4, 5, 6, 7] ∧
    ¬ Faithful (step s (.request 7 true true)) := by
  have hslots : slotsOf (step poweredOn (.request 7 true true)).code 7 = [0, 1, 2, 3, 4, 5, 6, 7] := by decide +kernel
  refine ⟨poweredOn, ⟨rfl, rfl⟩, rfl, hslots, fun hf => ?_⟩
  have hone := hf 7
  rw [hslots] at hone
  simp [step, poweredOn] at hone

end BtApp.StopSniff
