import LittleBuddy.Lib.Runs
import LittleBuddy.Lib.Slots
/-!
# The event sender of the coprocessor

`services/cp_accel/cp_accel.c`: one event at a time is on its way to the
coprocessor, and further ones wait in an array. `mcu2cp_tx_count` counts both.
The sender reads and writes the count without masking the interrupt in which
`mcu2cp_msg_sent` takes the next waiting event, so each access of the sender is
a step of its own.
-/
open Runs Slots

namespace CpAccel

/-! ## The code -/

/-- `MAX_CP_MSG_NUM`. -/
abbrev maxCpMsgNum : Nat := 5

/-- The part of `cp_env` about sending, and the two events that the channel points to. -/
structure CpEnv (Event : Type) where
  mcu2cp_tx_count : Nat
  mcu2cp_tx_pending : Nat → Event
  req_event : Event
  pending_event : Event

/-- Where `cp_accel_send_event_mcu2cp` stands, with what it has read. -/
inductive Pc (Event : Type)
  | main
  | limit (event : Event)
  | test (event : Event)
  | index (event : Event)
  | store (event : Event) (i : Int)
  | load (event : Event)
  | increment (event : Event) (n : Nat)
  | first (event : Event)
  | one (event : Event)
  | hand (event : Event)

/-- The sender and the channel: the events on their way, all events that were handed
to `hal_mcu2cp_send_mcu`, and all events that were accepted. -/
structure Sys (Event : Type) extends CpEnv Event where
  pc : Pc Event
  in_flight : List Event
  handed : List Event
  accepted : List Event

/-- A call of the sender, its next access, or the completion interrupt. -/
inductive Act (Event : Type)
  | call (event : Event)
  | run
  | sent

variable {Event : Type}

/-- The next access of `cp_accel_send_event_mcu2cp`. None is an access outside of the
array, or no call. -/
def sendStep (cp_accel_inited : Bool) (s : Sys Event) : Option (Sys Event) :=
  match s.pc with
  | .main => none
  | .limit event =>
    if cp_accel_inited = false ∨ s.mcu2cp_tx_count > maxCpMsgNum then some { s with pc := .main }
    else some { s with pc := .test event, accepted := s.accepted ++ [event] }
  | .test event =>
    if s.mcu2cp_tx_count > 0 then some { s with pc := .index event } else some { s with pc := .first event }
  | .index event => some { s with pc := .store event (s.mcu2cp_tx_count - 1) }
  | .store event i =>
    if 0 ≤ i ∧ i < maxCpMsgNum then
      some { s with mcu2cp_tx_pending := Function.update s.mcu2cp_tx_pending i.toNat event, pc := .load event }
    else none
  | .load event => some { s with pc := .increment event s.mcu2cp_tx_count }
  | .increment _ n => some { s with mcu2cp_tx_count := n + 1, pc := .main }
  | .first event => some { s with req_event := event, pc := .one event }
  | .one event => some { s with mcu2cp_tx_count := 1, pc := .hand event }
  | .hand _ =>
    some { s with in_flight := s.in_flight ++ [s.req_event], handed := s.handed ++ [s.req_event], pc := .main }

/-- `mcu2cp_msg_sent`, for the oldest event on its way. -/
def mcu2cpMsgSent (s : Sys Event) : Sys Event :=
  if s.mcu2cp_tx_count > 1 then
    let count := s.mcu2cp_tx_count - 1
    let event := s.mcu2cp_tx_pending 0
    { s with mcu2cp_tx_count := count, pending_event := event, in_flight := s.in_flight.tail ++ [event],
             handed := s.handed ++ [event], mcu2cp_tx_pending := shiftDown s.mcu2cp_tx_pending 0 (count - 1) }
  else { s with mcu2cp_tx_count := 0, in_flight := s.in_flight.tail }

/-- One action. The completion needs an event on its way. -/
def step (cp_accel_inited : Bool) : Act Event → Sys Event → Option (Sys Event)
  | .call event, s => match s.pc with
    | .main => some { s with pc := .limit event }
    | _ => none
  | .run, s => sendStep cp_accel_inited s
  | .sent, s => if s.in_flight = [] then none else some (mcu2cpMsgSent s)

/-- Nothing has been sent yet. -/
def Init (s : Sys Event) : Prop :=
  s.mcu2cp_tx_count = 0 ∧ s.pc = .main ∧ s.in_flight = [] ∧ s.handed = [] ∧ s.accepted = []

/-- The waiting events. -/
def waiting (s : CpEnv Event) : List Event := view s.mcu2cp_tx_pending (s.mcu2cp_tx_count - 1)

/-- What the claim says of a state: events are handed over in the order of
acceptance, the array is not left, and between two calls the count is the number
of events on their way and waiting, none of which is lost or stuck. -/
structure Served (s : Sys Event) : Prop where
  order : s.handed <+: s.accepted
  index : ∀ event i, s.pc = .store event i → 0 ≤ i ∧ i < maxCpMsgNum
  all : s.pc = .main → s.accepted = s.handed ++ waiting s.toCpEnv
  count : s.pc = .main → s.mcu2cp_tx_count = s.in_flight.length + (waiting s.toCpEnv).length
  moving : s.pc = .main → waiting s.toCpEnv ≠ [] → s.in_flight ≠ []

/-- The completion does not come between the read of the count for the index and
the write of the incremented one, nor before that read when it would leave no event. -/
def Timely : Act Event → Sys Event → Prop
  | .sent, s => match s.pc with
    | .store _ _ | .load _ | .increment _ _ => False
    | .index _ => s.mcu2cp_tx_count ≥ 2
    | _ => True
  | _, _ => True

instance (a : Act Event) (s : Sys Event) : Decidable (Timely a s) := by
  unfold Timely
  split
  · split <;> infer_instance
  · infer_instance

/-! ## What the sender knows -/

/-- The event of the call in progress, once it is accepted and until it waits or is handed over. -/
def current : Pc Event → List Event
  | .main | .limit _ => []
  | .test event | .index event | .store event _ | .load event | .increment event _ | .first event | .one event
  | .hand event => [event]

/-- What holds at a place of the sender. -/
def PcOk (s : Sys Event) : Prop :=
  match s.pc with
  | .main | .limit _ => s.mcu2cp_tx_count ≤ maxCpMsgNum + 1
  | .test _ => s.mcu2cp_tx_count ≤ maxCpMsgNum
  | .index _ => 0 < s.mcu2cp_tx_count ∧ s.mcu2cp_tx_count ≤ maxCpMsgNum
  | .store _ i => 0 < s.mcu2cp_tx_count ∧ s.mcu2cp_tx_count ≤ maxCpMsgNum ∧ i = s.mcu2cp_tx_count - 1
  | .load event => 0 < s.mcu2cp_tx_count ∧ s.mcu2cp_tx_count ≤ maxCpMsgNum ∧
      s.mcu2cp_tx_pending (s.mcu2cp_tx_count - 1) = event
  | .increment event n => 0 < s.mcu2cp_tx_count ∧ s.mcu2cp_tx_count ≤ maxCpMsgNum ∧
      s.mcu2cp_tx_pending (s.mcu2cp_tx_count - 1) = event ∧ n = s.mcu2cp_tx_count
  | .first _ => s.mcu2cp_tx_count = 0
  | .one event => s.mcu2cp_tx_count = 0 ∧ s.req_event = event
  | .hand event => s.mcu2cp_tx_count = 1 ∧ s.req_event = event

/-- The events on their way: one, if anything is counted, but for the moment before
the first event is handed over. -/
def flights (s : Sys Event) : Nat :=
  match s.pc with
  | .hand _ => 0
  | _ => min s.mcu2cp_tx_count 1

/-- The accepted events are those handed over, those waiting and the current one. -/
structure Counted (s : Sys Event) : Prop where
  all : s.accepted = s.handed ++ waiting s.toCpEnv ++ current s.pc
  flights : s.in_flight.length = flights s
  pc : PcOk s

variable {s s' : Sys Event} {inited : Bool}

theorem Counted.served (hs : Counted s) : Served s where
  order := by
    rw [hs.all, List.append_assoc]
    exact List.prefix_append ..
  index event i hpc := by
    have hok := hs.pc
    simp only [PcOk, hpc] at hok
    omega
  all hpc := by
    have hall := hs.all
    rwa [hpc, current, List.append_nil] at hall
  count hpc := by
    have hflights := hs.flights
    simp only [CpAccel.flights, hpc] at hflights
    rw [hflights, waiting, length_view]
    omega
  moving hpc hne hnil := by
    have hflights := hs.flights
    simp only [CpAccel.flights, hpc, hnil, List.length_nil] at hflights
    apply hne
    have hzero : s.mcu2cp_tx_count - 1 = 0 := by omega
    rw [waiting, hzero]
    rfl

theorem Counted.init (h : Init s) : Counted s := by
  obtain ⟨hcount, hpc, hflight, hhanded, haccepted⟩ := h
  constructor
  · simp [haccepted, hhanded, waiting, hcount, hpc, current, view]
  · simp [hflight, CpAccel.flights, hpc, hcount]
  · simp [PcOk, hpc, hcount]

/-- The completion interrupt takes the first waiting event, and the others move up. -/
theorem waiting_sent (h : s.mcu2cp_tx_count > 1) :
    waiting s.toCpEnv = s.mcu2cp_tx_pending 0 :: waiting (mcu2cpMsgSent s).toCpEnv := by
  have hview := view_shiftDown (a := s.mcu2cp_tx_pending) (i := 0) (n := s.mcu2cp_tx_count - 1) (by omega)
  rw [Nat.sub_zero, List.eraseIdx_zero] at hview
  rw [mcu2cpMsgSent, if_pos h, waiting, waiting, hview]
  have hlen : (view s.mcu2cp_tx_pending (s.mcu2cp_tx_count - 1)).length = s.mcu2cp_tx_count - 1 := length_view
  cases hv : view s.mcu2cp_tx_pending (s.mcu2cp_tx_count - 1) with
  | nil =>
    rw [hv, List.length_nil] at hlen
    omega
  | cons x l =>
    have hx := getElem_view (a := s.mcu2cp_tx_pending) (n := s.mcu2cp_tx_count - 1) (j := 0) (by rw [hlen]; omega)
    simp only [hv, List.getElem_cons_zero] at hx
    rw [hx, List.tail_cons]

theorem mcu2cpMsgSent_pc : (mcu2cpMsgSent s).pc = s.pc := by
  unfold mcu2cpMsgSent
  split <;> rfl

theorem mcu2cpMsgSent_accepted : (mcu2cpMsgSent s).accepted = s.accepted := by
  unfold mcu2cpMsgSent
  split <;> rfl

theorem mcu2cpMsgSent_count : (mcu2cpMsgSent s).mcu2cp_tx_count = s.mcu2cp_tx_count - 1 := by
  unfold mcu2cpMsgSent
  split
  · rfl
  · dsimp only
    omega

/-- What is handed over is taken from what waits. -/
theorem mcu2cpMsgSent_handed :
    (mcu2cpMsgSent s).handed ++ waiting (mcu2cpMsgSent s).toCpEnv = s.handed ++ waiting s.toCpEnv := by
  by_cases h : s.mcu2cp_tx_count > 1
  · rw [waiting_sent h]
    have hhanded : (mcu2cpMsgSent s).handed = s.handed ++ [s.mcu2cp_tx_pending 0] := by rw [mcu2cpMsgSent, if_pos h]
    rw [hhanded, List.append_assoc, List.singleton_append]
  · have hnone : s.mcu2cp_tx_count - 1 = 0 := by omega
    rw [mcu2cpMsgSent, if_neg h, waiting, waiting, hnone]
    rfl

theorem mcu2cpMsgSent_flight (hlen : s.in_flight.length = min s.mcu2cp_tx_count 1) :
    (mcu2cpMsgSent s).in_flight.length = min (s.mcu2cp_tx_count - 1) 1 := by
  unfold mcu2cpMsgSent
  split
  · simp only [List.length_append, List.length_tail, List.length_singleton]
    omega
  · simp only [List.length_tail]
    omega

/-- While nothing is on its way the completion cannot come. -/
theorem Counted.flights_eq (hs : Counted s) (hflight : s.in_flight ≠ []) :
    s.in_flight.length = min s.mcu2cp_tx_count 1 ∧ 0 < s.mcu2cp_tx_count := by
  have hlen := List.length_pos_of_ne_nil hflight
  have hflights := hs.flights
  unfold CpAccel.flights at hflights
  split at hflights <;> omega

/-- At a place where it is timely, the completion keeps what the sender knows. -/
theorem PcOk.sent (hok : PcOk s) (hpos : 0 < s.mcu2cp_tx_count) (htimely : Timely .sent s) (hhand : ∀ event, s.pc ≠ .hand event) :
    PcOk (mcu2cpMsgSent s) := by
  unfold PcOk at hok ⊢
  rw [mcu2cpMsgSent_pc, mcu2cpMsgSent_count]
  cases h : s.pc with
  | main | limit event | test event =>
    simp only [h] at hok ⊢
    omega
  | index event =>
    simp only [h, Timely] at hok htimely ⊢
    omega
  | store event i | load event | increment event n => simp only [Timely, h] at htimely
  | first event | one event =>
    simp only [h] at hok
    omega
  | hand event => exact absurd h (hhand event)

theorem Counted.sent (hs : Counted s) (hflight : s.in_flight ≠ []) (htimely : Timely .sent s) :
    Counted (mcu2cpMsgSent s) := by
  obtain ⟨hlen, hpos⟩ := hs.flights_eq hflight
  have hhand : ∀ event, s.pc ≠ .hand event := by
    intro event hpc
    have hflights := hs.flights
    simp only [CpAccel.flights, hpc] at hflights
    exact hflight (List.length_eq_zero_iff.1 hflights)
  refine ⟨?_, ?_, hs.pc.sent hpos htimely hhand⟩
  · rw [mcu2cpMsgSent_accepted, mcu2cpMsgSent_handed, mcu2cpMsgSent_pc, hs.all]
  · rw [mcu2cpMsgSent_flight hlen, CpAccel.flights, mcu2cpMsgSent_pc, mcu2cpMsgSent_count]
    split
    · rename_i event hpc
      exact absurd hpc (hhand event)
    · rfl

/-- The sender goes on: each access moves the event one place further. -/
theorem Counted.send (hs : Counted s) (h : sendStep inited s = some s') : Counted s' := by
  have hall := hs.all
  have hflights := hs.flights
  have hok := hs.pc
  unfold PcOk at hok
  unfold CpAccel.flights at hflights
  unfold sendStep at h
  cases hpc : s.pc with
  | main =>
    rw [hpc] at h
    cases h
  | limit event =>
    simp only [hpc] at h hok hflights
    split at h
    · cases h
      exact ⟨by simpa [hpc, current] using hall, hflights, hok⟩
    · rename_i hroom
      cases h
      rw [hpc, current, List.append_nil] at hall
      refine ⟨?_, hflights, ?_⟩
      · simp only [current, hall]
      · simp only [not_or, Nat.not_lt] at hroom
        exact hroom.2
  | test event =>
    simp only [hpc] at h hok hflights
    rw [hpc] at hall
    split at h
    · rename_i hpos
      cases h
      exact ⟨hall, hflights, hpos, hok⟩
    · rename_i hzero
      cases h
      exact ⟨hall, hflights, by simp only [PcOk]; omega⟩
  | index event =>
    simp only [hpc] at h hok hflights
    cases h
    rw [hpc] at hall
    exact ⟨hall, hflights, hok.1, hok.2, rfl⟩
  | store event i =>
    simp only [hpc] at h hok hflights
    split at h
    · cases h
      obtain ⟨hpos, hle, rfl⟩ := hok
      have hindex : ((s.mcu2cp_tx_count : Int) - 1).toNat = s.mcu2cp_tx_count - 1 := by omega
      rw [hpc] at hall
      refine ⟨?_, hflights, hpos, hle, ?_⟩
      · have hview : view s.mcu2cp_tx_pending (s.mcu2cp_tx_count - 1) =
            view (Function.update s.mcu2cp_tx_pending (s.mcu2cp_tx_count - 1) event) (s.mcu2cp_tx_count - 1) := by
          apply view_congr
          intro j hj
          exact (Function.update_of_ne (by omega) ..).symm
        rw [waiting, hview] at hall
        rwa [hindex]
      · simp only [hindex, Function.update_self]
    · cases h
  | load event =>
    simp only [hpc] at h hok hflights
    cases h
    rw [hpc] at hall
    exact ⟨hall, hflights, hok.1, hok.2.1, hok.2.2, rfl⟩
  | increment event n =>
    simp only [hpc] at h hok hflights
    cases h
    obtain ⟨hpos, hle, hlast, rfl⟩ := hok
    rw [hpc] at hall
    refine ⟨?_, ?_, ?_⟩
    · -- the event has become the last one of the array
      have hview := view_succ (a := s.mcu2cp_tx_pending) (n := s.mcu2cp_tx_count - 1)
      rw [hlast, Nat.sub_add_cancel hpos] at hview
      have hwait : waiting { s.toCpEnv with mcu2cp_tx_count := s.mcu2cp_tx_count + 1 } = waiting s.toCpEnv ++ [event] :=
        hview
      rw [hall]
      simp only [hwait, current, List.append_nil, List.append_assoc]
    · simp only [CpAccel.flights]
      omega
    · simp only [PcOk]
      omega
  | first event =>
    simp only [hpc] at h hok hflights
    cases h
    rw [hpc] at hall
    exact ⟨hall, hflights, hok, rfl⟩
  | one event =>
    simp only [hpc] at h hok hflights
    cases h
    rw [hpc] at hall
    refine ⟨?_, ?_, rfl, hok.2⟩
    · rw [hall, waiting, waiting, hok.1]
      rfl
    · simp only [CpAccel.flights]
      omega
  | hand event =>
    simp only [hpc] at h hok hflights
    cases h
    rw [hpc] at hall
    refine ⟨?_, ?_, ?_⟩
    · simp [hall, waiting, hok.1, hok.2, view, current]
    · simp only [CpAccel.flights, List.length_append, List.length_singleton]
      omega
    · simp only [PcOk]
      omega

theorem Counted.step {a : Act Event} (hs : Counted s) (htimely : Timely a s) (h : step inited a s = some s') : Counted s' := by
  cases a with
  | call event =>
    simp only [CpAccel.step] at h
    split at h
    · rename_i hpc
      cases h
      exact ⟨by simpa [hpc, current] using hs.all, by simpa [CpAccel.flights, hpc] using hs.flights,
        by simpa [PcOk, hpc] using hs.pc⟩
    · cases h
  | run => exact hs.send h
  | sent =>
    simp only [CpAccel.step] at h
    split at h
    · cases h
    · rename_i hflight
      cases h
      exact hs.sent hflight htimely

/-- In every run whose completions are timely, every accepted event is handed over
once and in order, the array is not left, and nothing gets stuck. -/
theorem events_served {evs : List (Act Event)} (hrun : Run (step inited) Timely Init s evs) : Served s := by
  apply Counted.served
  exact hrun.inv Counted (fun _ => Counted.init) fun _ _ _ hs htimely h => hs.step htimely h

/-- The sender after the initialisation. -/
def initial : Sys Nat :=
  { mcu2cp_tx_count := 0, mcu2cp_tx_pending := fun _ => 0, req_event := 0, pending_event := 0, pc := .main,
    in_flight := [], handed := [], accepted := [] }

/-- One call from its beginning to its end, for the first event and for one that waits. -/
def sendFirst (event : Nat) : List (Act Nat) := [.call event, .run, .run, .run, .run, .run]

def sendNext (event : Nat) : List (Act Nat) := [.call event, .run, .run, .run, .run, .run, .run]

theorem events_served_three : ∃ s evs, Run (step true) Timely Init s evs ∧ s.handed = [7, 8] ∧ Served s := by
  obtain ⟨s, hrun, hgood⟩ := exists_run_of_check (step true) Timely Init (some initial)
    (sendFirst 7 ++ sendNext 8 ++ sendNext 9 ++ [.sent]) (fun s => s.handed == [7, 8])
    (by rintro _ ⟨⟩; exact ⟨rfl, rfl, rfl, rfl, rfl⟩) (by decide)
  exact ⟨s, _, hrun, by simpa using hgood, events_served hrun⟩

/-- The completion of the only event comes when the sender of the next one has just
seen a count of one: the index becomes -1. -/
theorem index_below_array : ∃ s evs, Run (step true) (fun _ _ => True) Init s evs ∧
    (∃ event : Nat, s.pc = Pc.store event (-1)) ∧ ¬ Served s := by
  obtain ⟨s, hrun, hgood⟩ := exists_run_of_check (step true) (fun _ _ => True) Init (some initial)
    (sendFirst 7 ++ [.call 8, .run, .run, .sent, .run])
    (fun s => match s.pc with | .store _ i => i == -1 | _ => false)
    (by rintro _ ⟨⟩; exact ⟨rfl, rfl, rfl, rfl, rfl⟩) (by decide)
  have hpc : ∃ event, s.pc = .store event (-1) := by
    cases h : s.pc with
    | store event i => exact ⟨event, by simpa [h] using hgood⟩
    | _ => simp [h] at hgood
  refine ⟨s, _, hrun, hpc, ?_⟩
  intro hs
  obtain ⟨event, hpc⟩ := hpc
  have := (hs.index event (-1) hpc).1
  omega

end CpAccel
