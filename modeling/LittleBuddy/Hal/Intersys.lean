import LittleBuddy.Lib.Chain
import LittleBuddy.Lib.Runs
import Mathlib.Data.List.FinRange
import Mathlib.Data.List.Nodup
import Mathlib.Logic.Function.Basic
import Mathlib.Tactic.Common
/-!
# The message channel between the processors

`hal_intersys_send` links a record into one of two lists: the messages that the
peer was told of, and those that wait for the peer to be done with them. The
peer walks the first list in its receive interrupt. When it is done, the
transmit-done interrupt frees the records one by one, moves the waiting list
and tells the peer again.

A send runs under `int_lock` and is one step. The interrupt handlers and
`hal_intersys_start_recv` are taken apart, so that sends, the peer and other
calls come between any two accesses to what they share. Both sides have opened
the same message types.
-/
open Runs

namespace Hal.Intersys

/-! ## The records -/

inductive Id
  | id0 | id1
  deriving DecidableEq

inductive MsgType
  | hci | sys
  deriving DecidableEq

def MAX_SEND_RECORD_COUNT : Nat := 3

/-- A record of `send_msgs[id]`. -/
abbrev Slot := Fin MAX_SEND_RECORD_COUNT

/-- `HAL_INTERSYS_MSG_T`: `data` stands for the pointer and `len`. -/
structure Msg where
  next : Option Slot
  type : MsgType
  data : List UInt8

structure SendRecord where
  msg : Msg
  in_use : Bool

/-- What a send hands over. -/
abbrev Message := MsgType × List UInt8

/-- Where the receive interrupt of the peer is: at a message, before it tells
that it is done, or before it clears `recv_pending_head`. -/
inductive Rx
  | idle | head | slot (r : Slot) | done | clear
  deriving DecidableEq

/-- One message id. The lines of the two interrupts are what one side sets and
the other clears. `checks` and `sets` are the calls of `hal_intersys_start_recv`
that are before their check and before setting the line. `owed` tells that the
receiver has yet to call `hal_intersys_rx_done`. The lists at the end are the
messages accepted, received and transmit-done, and `part` is what the handler
has taken of the next message. -/
structure Chan where
  send_msgs : Slot → SendRecord
  send_msg_list_p : Option Slot
  send_pending_list_p : Option Slot
  chan_busy : Bool
  send_ind : Bool
  recv_done : Bool
  recv_pending_head : Option Msg
  recv_enabled : Bool
  rx : Rx
  checks : Nat
  sets : Nat
  owed : Bool
  accepted : List Message
  received : List Message
  part : List UInt8
  done : List Message

namespace Chan

def next (c : Chan) (r : Slot) : Option Slot := (c.send_msgs r).msg.next

def message (c : Chan) (r : Slot) : Message := ((c.send_msgs r).msg.type, (c.send_msgs r).msg.data)

def in_use (c : Chan) (r : Slot) : Bool := (c.send_msgs r).in_use

/-- `r->next = p`. -/
def setNext (c : Chan) (r : Slot) (p : Option Slot) : Chan :=
  let record := c.send_msgs r
  { c with send_msgs := Function.update c.send_msgs r { record with msg := { record.msg with next := p } } }

/-- A record is filled and marked as used. -/
def fill (c : Chan) (r : Slot) (m : Message) : Chan :=
  let msg := { next := none, type := m.1, data := m.2 }
  { c with send_msgs := Function.update c.send_msgs r { msg := msg, in_use := true } }

/-- `r->in_use = false`. -/
def release (c : Chan) (r : Slot) : Chan :=
  let record := c.send_msgs r
  { c with send_msgs := Function.update c.send_msgs r { record with in_use := false } }

/-- The first record that is not in use. -/
def freeRecord (c : Chan) : Option Slot := (List.finRange MAX_SEND_RECORD_COUNT).find? fun r => !c.in_use r

/-- The last record behind `r`, if the walk ends in so many steps. -/
def lastFrom (c : Chan) : Nat → Slot → Option Slot
  | 0, _ => none
  | fuel + 1, r =>
    match c.next r with
    | none => some r
    | some q => c.lastFrom fuel q

/-- A new record is the list of the peer, or it waits. -/
def link (c : Chan) (r : Slot) : Option Chan :=
  match c.send_msg_list_p with
  | none => some { c with send_msg_list_p := some r, send_ind := true }
  | some _ =>
    match c.send_pending_list_p with
    | none => some { c with send_pending_list_p := some r }
    | some p => (c.lastFrom MAX_SEND_RECORD_COUNT p).map fun last => c.setNext last (some r)

end Chan

/-! ## The sender -/

/-- Where the transmit-done interrupt is: before the handler of a record, before
marking it free, before reading its `next`, and at the statements behind the
loop. The last three are those of `hal_intersys_busy(id, false)`. -/
inductive Pc
  | handler (r : Slot) | free (r : Slot) | next (r : Slot)
  | test | take | drop | ind | clear
  | busy | scan | unlock
  deriving DecidableEq

/-- Both message ids, `busy_now`, the chip wake lock, and the interrupt that runs. -/
structure Sys where
  chan : Id → Chan
  busy_now : Bool
  wake : Bool
  isr : Option (Id × Pc)

def Sys.set (s : Sys) (id : Id) (c : Chan) : Sys := { s with chan := Function.update s.chan id c }

/-- `hal_intersys_busy(id, true)`. -/
def markBusy (id : Id) (s : Sys) : Sys :=
  if (s.chan id).chan_busy then s
  else
    let s := s.set id { s.chan id with chan_busy := true }
    if s.busy_now then s else { s with wake := true, busy_now := true }

/-- `hal_intersys_send`: its result and the state, if the walk along the waiting
list ends. -/
def halIntersysSend (opened : Id → MsgType → Bool) (id : Id) (m : Message) (s : Sys) : Option (Int × Sys) :=
  if opened id m.1 = false then some (3, s)
  else
    let c := s.chan id
    match c.freeRecord with
    | none => some (-1, s)
    | some r => ((c.fill r m).link r).map fun c' =>
        (0, markBusy id (s.set id { c' with accepted := c.accepted ++ [m] }))

/-- The record that the loop of `hal_intersys_tx_irq` looks at next, or the test
behind the loop. -/
def loop : Option Slot → Pc
  | none => .test
  | some r => .handler r

/-- The beginning of `hal_intersys_tx_irq`. -/
def txEnter (id : Id) (s : Sys) : Option Sys :=
  let c := s.chan id
  if s.isr = none ∧ c.recv_done = true then
    some { s.set id { c with recv_done := false } with isr := some (id, loop c.send_msg_list_p) }
  else none

/-- One statement of `hal_intersys_tx_irq`. -/
def txStep (id : Id) (pc : Pc) (s : Sys) : Sys :=
  let c := s.chan id
  match pc with
  | .handler r => { s.set id { c with done := c.done ++ [c.message r] } with isr := some (id, .free r) }
  | .free r => { s.set id (c.release r) with isr := some (id, .next r) }
  | .next r => { s with isr := some (id, loop (c.next r)) }
  | .test => { s with isr := some (id, if c.send_pending_list_p.isSome then .take else .clear) }
  | .take => { s.set id { c with send_msg_list_p := c.send_pending_list_p } with isr := some (id, .drop) }
  | .drop => { s.set id { c with send_pending_list_p := none } with isr := some (id, .ind) }
  | .ind => { s.set id { c with send_ind := true } with isr := none }
  | .clear => { s.set id { c with send_msg_list_p := none } with isr := some (id, .busy) }
  | .busy =>
    if c.chan_busy then { s.set id { c with chan_busy := false } with isr := some (id, .scan) }
    else { s with isr := none }
  | .scan =>
    if s.busy_now = false ∨ (s.chan .id0).chan_busy = true ∨ (s.chan .id1).chan_busy = true then { s with isr := none }
    else { s with isr := some (id, .unlock) }
  | .unlock => { s with wake := false, busy_now := false, isr := none }

/-! ## The receiver -/

/-- The message that the receive interrupt looks at next, or the end of its loop. -/
def rxLoop : Option Slot → Rx
  | none => .done
  | some r => .slot r

/-- The beginning of `hal_intersys_rx_irq`. -/
def rxEnter (c : Chan) : Option Chan :=
  if c.rx = .idle ∧ c.recv_enabled = true ∧ c.send_ind = true then
    some { c with send_ind := false, rx := if c.recv_pending_head.isSome then .head else rxLoop c.send_msg_list_p }
  else none

/-- The handler takes `processed` bytes of a message: the rest waits in
`recv_pending_head`, or the next message is looked at. -/
def rxMessage (c : Chan) (msg : Msg) (processed : Nat) : Chan :=
  if processed < msg.data.length then
    { c with
      recv_pending_head := some { msg with data := msg.data.drop processed }
      part := c.part ++ msg.data.take processed
      rx := .idle }
  else
    { c with
      received := c.received ++ [(msg.type, c.part ++ msg.data)]
      part := []
      rx := rxLoop msg.next }

/-- One iteration of the loop of `hal_intersys_rx_irq`. -/
def rxHandle (processed : Nat) (c : Chan) : Option Chan :=
  match c.rx with
  | .head => c.recv_pending_head.map fun msg => rxMessage c msg processed
  | .slot r => some (rxMessage c (c.send_msgs r).msg processed)
  | _ => none

/-- The end of `hal_intersys_rx_irq`. -/
def rxEnd (need_flow_ctrl : Bool) (c : Chan) : Option Chan :=
  match c.rx with
  | .done =>
    if need_flow_ctrl then some { c with owed := true, rx := .clear }
    else some { c with recv_done := true, rx := .clear }
  | .clear => some { c with recv_pending_head := none, rx := .idle }
  | _ => none

/-- `hal_intersys_rx_done`. -/
def halIntersysRxDone (c : Chan) : Chan := { c with recv_done := true, owed := false }

/-- `hal_intersys_start_recv` in three steps: the interrupt is enabled, a rest is
looked for, and the line is set for it. -/
def startRecv (c : Chan) : Chan := { c with recv_enabled := true, checks := c.checks + 1 }

def startCheck (c : Chan) : Option Chan :=
  if 0 < c.checks then
    some { c with checks := c.checks - 1, sets := if c.recv_pending_head.isSome then c.sets + 1 else c.sets }
  else none

def startSet (c : Chan) : Option Chan :=
  if 0 < c.sets then some { c with sets := c.sets - 1, send_ind := true } else none

/-- `hal_intersys_stop_recv`. -/
def halIntersysStopRecv (c : Chan) : Chan := { c with recv_enabled := false }

/-! ## The system -/

/-- How the ids were opened. -/
structure Config where
  opened : Id → MsgType → Bool
  need_flow_ctrl : Id → Bool

inductive Event
  | send (id : Id) (m : Message)
  | txEnter (id : Id)
  | tx
  | rxEnter (id : Id)
  | rxHandle (id : Id) (processed : Nat)
  | rxEnd (id : Id)
  | rxDone (id : Id)
  | startRecv (id : Id)
  | startCheck (id : Id)
  | startSet (id : Id)
  | stopRecv (id : Id)

def step (cfg : Config) (e : Event) (s : Sys) : Option Sys :=
  match e with
  | .send id m => (halIntersysSend cfg.opened id m s).map Prod.snd
  | .txEnter id => txEnter id s
  | .tx => s.isr.map fun (id, pc) => txStep id pc s
  | .rxEnter id => (rxEnter (s.chan id)).map (s.set id)
  | .rxHandle id processed => (rxHandle processed (s.chan id)).map (s.set id)
  | .rxEnd id => (rxEnd (cfg.need_flow_ctrl id) (s.chan id)).map (s.set id)
  | .rxDone id => some (s.set id (halIntersysRxDone (s.chan id)))
  | .startRecv id => some (s.set id (startRecv (s.chan id)))
  | .startCheck id => (startCheck (s.chan id)).map (s.set id)
  | .startSet id => (startSet (s.chan id)).map (s.set id)
  | .stopRecv id => some (s.set id (halIntersysStopRecv (s.chan id)))

/-- `hal_intersys_open` for both ids. -/
def Init (s : Sys) : Prop :=
  (∀ id, (∀ r, (s.chan id).in_use r = false) ∧ (s.chan id).send_msg_list_p = none ∧
    (s.chan id).send_pending_list_p = none ∧ (s.chan id).chan_busy = false ∧ (s.chan id).send_ind = false ∧
    (s.chan id).recv_done = false ∧ (s.chan id).recv_pending_head = none ∧ (s.chan id).rx = .idle ∧
    (s.chan id).checks = 0 ∧ (s.chan id).sets = 0 ∧ (s.chan id).owed = false ∧ (s.chan id).accepted = [] ∧
    (s.chan id).received = [] ∧ (s.chan id).part = [] ∧ (s.chan id).done = []) ∧
  s.busy_now = false ∧ s.wake = false ∧ s.isr = none

/-- Something is under way for the id: an interrupt, or a call of the receiver
that is waited for. -/
def Moving (id : Id) (s : Sys) : Prop :=
  (∃ pc, s.isr = some (id, pc)) ∨ (s.chan id).send_ind = true ∨ (s.chan id).recv_done = true ∨ (s.chan id).rx ≠ .idle ∨
    (s.chan id).recv_pending_head.isSome = true ∨ (s.chan id).owed = true

/-- The messages are received completely, once and in order, and transmit-done
after that; a record in use keeps its message until then; the wake lock is held
while a message is in flight, and no longer than the interrupt that frees the
last one; and no message is stuck. -/
structure Served (cfg : Config) (s : Sys) : Prop where
  received : ∀ id, (s.chan id).done <+: (s.chan id).received ∧ (s.chan id).received <+: (s.chan id).accepted
  part : ∀ id, (s.chan id).part ≠ [] → ∃ type rest,
    (s.chan id).accepted[(s.chan id).received.length]? = some (type, (s.chan id).part ++ rest)
  kept : ∀ id, ∃ slots : List Slot, slots.Nodup ∧ (∀ r ∈ slots, (s.chan id).in_use r = true) ∧
    (s.chan id).accepted = (s.chan id).done ++ slots.map (s.chan id).message
  awake : (∃ id, (s.chan id).done ≠ (s.chan id).accepted) → s.wake = true
  asleep : s.isr = none → (∀ id, (s.chan id).done = (s.chan id).accepted) → s.wake = false
  moving : ∀ id, (s.chan id).done ≠ (s.chan id).accepted → Moving id s
  returns : ∀ id m, (halIntersysSend cfg.opened id m s).isSome = true

/-- No send comes where the transmit-done interrupt has freed a record of the
same id and not read its `next` yet, or has found nothing waiting and not marked
the id as idle yet, nor where it is about to release the wake lock. -/
def Apart (id : Id) (s : Sys) : Prop :=
  match s.isr with
  | some (id', .next _) => id' ≠ id
  | some (id', .clear) => id' ≠ id
  | some (id', .busy) => id' ≠ id
  | some (_, .unlock) => False
  | _ => True

/-- When a send, `hal_intersys_rx_done` and the last step of
`hal_intersys_start_recv` may come: the receiver is done once for what it has
taken, and the rest that was looked for is still there. -/
def Timely (e : Event) (s : Sys) : Prop :=
  match e with
  | .send id _ => Apart id s
  | .rxDone id => (s.chan id).owed = true
  | .startSet id => (s.chan id).recv_pending_head.isSome = true ∧ (s.chan id).rx = .idle
  | _ => True

end Hal.Intersys
