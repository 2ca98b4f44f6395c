import LittleBuddy.Lib.Chain
import LittleBuddy.Lib.DeltaQueue
import LittleBuddy.Lib.Runs
import Mathlib.Algebra.Group.Nat.Defs
import Mathlib.Data.List.FinRange
/-!
# The list of hardware timers

`utils/hwtimer_list/hwtimer_list.c` over the timer of `platform/hal/hal_timer.c`.
A call of the API is one step, but for `hwtimer_alloc`, which leaves its
critical section before it marks the timer. The handler is in steps too: it
runs callbacks outside its critical section, and any call may come there.

Of the hardware, a count that goes down from the load to null is assumed,
which is late by one tick at most. `none` stands for a failed `ASSERT`, or for
an endless loop.
-/
open LinkedPool

namespace HwTimer

/-- `HWTIMER_STATE_T`. -/
inductive State where
  | free | alloc | active | fired | callback
  deriving DecidableEq

/-- `E_HWTIMER_T`. -/
inductive Ret where
  | ok | failed | invalId | invalSt | inCallback | notFound
  deriving DecidableEq

/-- `HWTIMER_T`. A callback is its address. -/
structure Timer (N : Nat) where
  state : State
  next : Option (Fin N)
  time : Nat
  callback : Option Nat
  param : Nat

/-- `hwtimer_list`, the timer of the HAL, and where the calls are: `taken` are
the timers that `hwtimer_alloc` has taken from the free list and not yet
marked, `handling` is the timer whose callback the handler has called.

`now` and `start_time` do not wrap; differences of them do. -/
structure TimerList (N : Nat) where
  timer : Fin N → Timer N
  free : Option (Fin N)
  active : Option (Fin N)
  fired : Option (Fin N)
  now : Nat
  start_time : Nat
  load : Nat
  enabled : Bool
  taken : List (Fin N)
  handling : Option (Fin N)

variable {N : Nat}

namespace TimerList

def state (s : TimerList N) (i : Fin N) : State := (s.timer i).state

def next (s : TimerList N) (i : Fin N) : Option (Fin N) := (s.timer i).next

def time (s : TimerList N) (i : Fin N) : Nat := (s.timer i).time

def setState (s : TimerList N) (i : Fin N) (st : State) : TimerList N :=
  { s with timer := Function.update s.timer i { s.timer i with state := st } }

def setNext (s : TimerList N) (i : Fin N) (p : Option (Fin N)) : TimerList N :=
  { s with timer := Function.update s.timer i { s.timer i with next := p } }

def setTime (s : TimerList N) (i : Fin N) (t : Nat) : TimerList N :=
  { s with timer := Function.update s.timer i { s.timer i with time := t } }

def setCallback (s : TimerList N) (i : Fin N) (callback : Option Nat) (param : Nat) : TimerList N :=
  { s with timer := Function.update s.timer i { s.timer i with callback, param } }

end TimerList

/-! ## The timer of the HAL -/

/-- `HAL_TIMER_LOAD_DELTA`. -/
abbrev loadDelta : Nat := 1

/-- `uint32_t` sums. -/
def add32 (a b : Nat) : Nat := (a + b) % 2 ^ 32

/-- `hal_timer_start`, with `hal_timer_reload`. -/
def halTimerStart (load : Nat) (s : TimerList N) : TimerList N :=
  { s with
    start_time := s.now
    load := if load > loadDelta then load - loadDelta else 1
    enabled := true }

/-- `hal_timer_stop`. -/
def halTimerStop (s : TimerList N) : TimerList N := { s with enabled := false }

/-- `hal_timer_get`: the count, which may be a tick `late`. -/
def halTimerGet (late : Bool) (s : TimerList N) : Nat :=
  min s.load (s.load + late.toNat - (s.now - s.start_time))

/-- `hal_timer_get_elapsed_time`. -/
def halTimerGetElapsedTime (s : TimerList N) : Nat := (s.now - s.start_time) % 2 ^ 32

/-! ## The handler -/

/-- The loop of `hwtimer_handler` over the timers that expired with the first
one: it ends with `elapsed`, `pre` and `last`. -/
def fireLoop : Nat → Nat → Fin N → Option (Fin N) → TimerList N → Option (Nat × Fin N × Option (Fin N) × TimerList N)
  | _, elapsed, pre, none, s => some (elapsed, pre, none, s)
  | 0, _, _, some _, _ => none
  | fuel + 1, elapsed, pre, some last, s =>
    if s.time last ≤ elapsed then
      fireLoop fuel (elapsed - s.time last) last (s.next last) (s.setState last .fired)
    else some (elapsed, pre, some last, s)

/-- The loop of `hwtimer_handler` over the fired list, up to a callback. -/
def serveFired : Nat → TimerList N → Option (TimerList N)
  | fuel, s =>
    match s.fired with
    | none => some { s with handling := none }
    | some last =>
      match fuel with
      | 0 => none
      | fuel + 1 =>
        let s := { s with fired := s.next last }
        let s := (s.setState last .callback).setNext last none
        if (s.timer last).callback.isSome then some { s with handling := some last }
        else serveFired fuel (s.setState last .alloc)

/-- `hwtimer_handler`, up to the first callback. -/
def hwtimerHandler (s : TimerList N) : Option (TimerList N) :=
  match s.active with
  | none => if s.enabled then none else some s
  | some head =>
    let elapsed := halTimerGetElapsedTime s
    if s.time head > elapsed + loadDelta then if s.enabled then some s else none
    else do
      let elapsed := if elapsed > s.time head then elapsed - s.time head else 0
      let (elapsed, pre, last, s) ← fireLoop N elapsed head (s.next head) (s.setState head .fired)
      let s := s.setNext pre none
      let s := { s with
        fired := s.active
        active := last }
      let s :=
        match last with
        | some last =>
          let s := s.setTime last (s.time last - elapsed)
          halTimerStart (s.time last) s
        | none => halTimerStop s
      serveFired N s

/-- The callback has returned to `hwtimer_handler`. -/
def handlerReturn (s : TimerList N) : Option (TimerList N) := do
  let last ← s.handling
  serveFired N (if s.state last = .callback then s.setState last .alloc else s)

/-! ## The API -/

/-- `hwtimer_init`. -/
def hwtimerInit (now : Nat) : TimerList N where
  timer i := ⟨.free, if h : i.1 + 1 < N then some ⟨i.1 + 1, h⟩ else none, 0, none, 0⟩
  free := if h : 0 < N then some ⟨0, h⟩ else none
  active := none
  fired := none
  now := now
  start_time := 0
  load := 0
  enabled := false
  taken := []
  handling := none

/-- `hwtimer_alloc`, up to the end of its critical section. -/
def hwtimerAlloc (s : TimerList N) : TimerList N :=
  match s.free with
  | none => s
  | some timer => { s with
    free := s.next timer
    taken := timer :: s.taken }

/-- `hwtimer_alloc`, for the timer that it has taken. -/
def hwtimerAllocRest (i : Fin N) (callback : Option Nat) (param : Nat) (s : TimerList N) : Option (TimerList N) :=
  if s.state i = .free then
    some { ((s.setState i .alloc).setCallback i callback param).setNext i none with taken := s.taken.erase i }
  else none

/-- `hwtimer_free`. An `id` of `none` is not in the pool. -/
def hwtimerFree (id : Option (Fin N)) (s : TimerList N) : Ret × TimerList N :=
  match id with
  | none => (.invalId, s)
  | some i =>
    if s.state i ≠ .alloc then (.invalSt, s)
    else
      let s := (s.setState i .free).setNext i s.free
      (.ok, { s with free := some i })

/-- The loop of `__hwtimer_start_int`: it ends with `pre`, `next` and `ticks`. -/
def placeLoop (s : TimerList N) : Nat → Fin N → Option (Fin N) → Nat → Option (Fin N × Option (Fin N) × Nat)
  | _, pre, none, ticks => some (pre, none, ticks)
  | 0, _, some _, _ => none
  | fuel + 1, pre, some next, ticks =>
    if s.time next < ticks then placeLoop s fuel next (s.next next) (ticks - s.time next)
    else some (pre, some next, ticks)

/-- `__hwtimer_start_int` where timers are active, `head` first. -/
def startActive (i head : Fin N) (ticks : Nat) (late : Bool) (s : TimerList N) : Option (TimerList N) :=
  let cur_time := halTimerGet late s
  if ¬ (cur_time ≤ s.time head ∨ cur_time ≤ loadDelta) then none
  else if cur_time > ticks then
    let s := (s.setTime head (cur_time - ticks)).setNext i (some head)
    some ((halTimerStart ticks (halTimerStop { s with active := some i })).setTime i ticks)
  else do
    let (pre, next, ticks) ← placeLoop s N head (s.next head) (ticks - cur_time)
    let s :=
      match next with
      | some next => s.setTime next (s.time next - ticks)
      | none => s
    some (((s.setNext pre (some i)).setNext i next).setTime i ticks)

/-- `__hwtimer_start_int`: `update` is the callback and its parameter, if they
are set. -/
def hwtimerStart (id : Option (Fin N)) (update : Option (Option Nat × Nat)) (ticks : UInt32) (late : Bool)
    (s : TimerList N) : Option (Ret × TimerList N) :=
  match id with
  | none => some (.invalId, s)
  | some i =>
    let ticks := if ticks.toNat < loadDelta then loadDelta else ticks.toNat
    if s.state i ≠ .alloc ∧ s.state i ≠ .callback then some (.invalSt, s)
    else
      let s := s.setState i .active
      let s :=
        match update with
        | some (callback, param) => s.setCallback i callback param
        | none => s
      match s.active with
      | none => some (.ok, (halTimerStart ticks { s.setNext i none with active := some i }).setTime i ticks)
      | some head => (startActive i head ticks late s).map (Ret.ok, ·)

/-- `hwtimer_update`. -/
def hwtimerUpdate (id : Option (Fin N)) (callback : Option Nat) (param : Nat) (s : TimerList N) : Ret × TimerList N :=
  match id with
  | none => (.invalId, s)
  | some i =>
    if s.state i = .alloc ∨ s.state i = .callback then (.ok, s.setCallback i callback param) else (.invalSt, s)

/-- The loop of `hwtimer_stop` over the timers behind an expired one. -/
def catchUpLoop : Nat → Nat → Option (Fin N) → TimerList N → Option (TimerList N)
  | _, _, none, s => some s
  | 0, _, some _, _ => none
  | fuel + 1, elapsed_time, some pre, s =>
    if s.time pre ≤ elapsed_time then
      catchUpLoop fuel (elapsed_time - s.time pre) (s.next pre) (s.setTime pre 0)
    else some (s.setTime pre (s.time pre - elapsed_time))

/-- `hwtimer_stop` of the first active timer. -/
def stopHead (head : Fin N) (late : Bool) (s : TimerList N) : Option (TimerList N) :=
  let cur_time := halTimerGet late s
  if ¬ (cur_time ≤ s.time head ∨ cur_time ≤ loadDelta) then none
  else
    let s := halTimerStop s
    match s.next head with
    | none => some { s with active := none }
    | some next =>
      if cur_time = 0 then
        let elapsed_time := halTimerGetElapsedTime s
        if ¬ elapsed_time + loadDelta ≥ s.time head then none
        else do
          let elapsed_time := if elapsed_time > s.time head then elapsed_time - s.time head else 0
          let s ← catchUpLoop N elapsed_time (some next) s
          some { halTimerStart (s.time next) s with active := some next }
      else
        let s := s.setTime next (add32 (s.time next) cur_time)
        some { halTimerStart (s.time next) s with active := some next }

/-- The search of `hwtimer_stop` for `timer`: `pre` when it is found. -/
def findPre (s : TimerList N) (timer : Fin N) : Nat → Fin N → Option (Fin N) → Option (Option (Fin N))
  | _, _, none => some none
  | 0, _, some _ => none
  | fuel + 1, pre, some next =>
    if next = timer then some (some pre) else findPre s timer fuel next (s.next next)

/-- `hwtimer_stop` of another active timer. -/
def stopActive (i head : Fin N) (s : TimerList N) : Option (TimerList N) := do
  let pre ← findPre s i N head (s.next head)
  let pre ← pre
  let next := s.next i
  let s := s.setNext pre next
  match next with
  | none => some s
  | some next => some (s.setTime next (add32 (s.time next) (s.time i)))

/-- `hwtimer_stop` of a fired timer. -/
def stopFired (i : Fin N) (s : TimerList N) : Option (TimerList N) :=
  match s.fired with
  | none => none
  | some head =>
    if head = i then some { s with fired := s.next head }
    else do
      let pre ← findPre s i N head (s.next head)
      let pre ← pre
      some (s.setNext pre (s.next i))

/-- The end of `hwtimer_stop`. -/
def stopped (i : Fin N) (s : TimerList N) : Ret × TimerList N := (.ok, (s.setState i .alloc).setNext i none)

/-- `hwtimer_stop`. A timer that is not found where its state says, fails the
`ASSERT` that follows. -/
def hwtimerStop (id : Option (Fin N)) (late : Bool) (s : TimerList N) : Option (Ret × TimerList N) :=
  match id with
  | none => some (.invalId, s)
  | some i =>
    match s.state i with
    | .alloc => some (.ok, s)
    | .active =>
      match s.active with
      | none => none
      | some head => (if head = i then stopHead head late s else stopActive i head s).map (stopped i)
    | .fired => (stopFired i s).map (stopped i)
    | .callback => some (.inCallback, s)
    | .free => some (.invalSt, s)

/-! ## Steps -/

/-- What may happen: time passes, a call of the API, the interrupt, or a
callback returns. -/
inductive Event (N : Nat) where
  | pass (ticks : Nat)
  | alloc
  | allocRest (i : Fin N) (callback : Option Nat) (param : Nat)
  | free (id : Option (Fin N))
  | start (id : Option (Fin N)) (update : Option (Option Nat × Nat)) (ticks : UInt32) (late : Bool)
  | update (id : Option (Fin N)) (callback : Option Nat) (param : Nat)
  | stop (id : Option (Fin N)) (late : Bool)
  | interrupt
  | callbackReturn

/-- The `id` of a timer is known from the end of its `hwtimer_alloc` on. -/
def Known (s : TimerList N) (id : Option (Fin N)) : Prop := ∀ i ∈ s.taken, id ≠ some i

instance (s : TimerList N) (id : Option (Fin N)) : Decidable (Known s id) :=
  inferInstanceAs (Decidable (∀ i ∈ s.taken, _))

/-- One step. The handler does not interrupt itself. -/
def step : Event N → TimerList N → Option (TimerList N)
  | .pass ticks, s => some { s with now := s.now + ticks }
  | .alloc, s => some (hwtimerAlloc s)
  | .allocRest i callback param, s => if i ∈ s.taken then hwtimerAllocRest i callback param s else none
  | .free id, s => if Known s id then some (hwtimerFree id s).2 else none
  | .start id update ticks late, s => if Known s id then (hwtimerStart id update ticks late s).map Prod.snd else none
  | .update id callback param, s => if Known s id then some (hwtimerUpdate id callback param s).2 else none
  | .stop id late, s => if Known s id then (hwtimerStop id late s).map Prod.snd else none
  | .interrupt, s => if s.handling = none then hwtimerHandler s else none
  | .callbackReturn, s => handlerReturn s

/-- The states that are reached from `hwtimer_init`. -/
def Reachable (s : TimerList N) : Prop :=
  ∃ evs, Runs.Run step (fun _ _ => True) (fun s => ∃ now, s = hwtimerInit now) s evs

end HwTimer
