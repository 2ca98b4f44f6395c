import LittleBuddy.Utils.HwTimer
import Mathlib.Data.Fintype.EquivFin
/-!
# The three lists of the hardware timers

`Holds s F q R`: the free list is `F`, the fired list is `R`, and the active
list has the timers and the times of the queue `q`. Each loop is a function of
`DeltaQueue` on `q`, and each call of the API has one lemma that says what it
makes of the three.
-/
open LinkedPool DeltaQueue

namespace HwTimer

variable {N : Nat}

/-! ## The fields of a timer -/

namespace TimerList

variable (s : TimerList N) (i : Fin N)

section State
variable (st : State)

@[simp] theorem state_setState : (s.setState i st).state = Function.update s.state i st :=
  Function.comp_update Timer.state s.timer i _

@[simp] theorem next_setState : (s.setState i st).next = s.next :=
  (Function.comp_update Timer.next s.timer i _).trans (Function.update_eq_self i _)

@[simp] theorem time_setState : (s.setState i st).time = s.time :=
  (Function.comp_update Timer.time s.timer i _).trans (Function.update_eq_self i _)

end State

section Next
variable (p : Option (Fin N))

@[simp] theorem state_setNext : (s.setNext i p).state = s.state :=
  (Function.comp_update Timer.state s.timer i _).trans (Function.update_eq_self i _)

@[simp] theorem next_setNext : (s.setNext i p).next = Function.update s.next i p :=
  Function.comp_update Timer.next s.timer i _

@[simp] theorem time_setNext : (s.setNext i p).time = s.time :=
  (Function.comp_update Timer.time s.timer i _).trans (Function.update_eq_self i _)

end Next

section Time
variable (t : Nat)

@[simp] theorem state_setTime : (s.setTime i t).state = s.state :=
  (Function.comp_update Timer.state s.timer i _).trans (Function.update_eq_self i _)

@[simp] theorem next_setTime : (s.setTime i t).next = s.next :=
  (Function.comp_update Timer.next s.timer i _).trans (Function.update_eq_self i _)

@[simp] theorem time_setTime : (s.setTime i t).time = Function.update s.time i t :=
  Function.comp_update Timer.time s.timer i _

end Time

section Callback
variable (callback : Option Nat) (param : Nat)

@[simp] theorem state_setCallback : (s.setCallback i callback param).state = s.state :=
  (Function.comp_update Timer.state s.timer i _).trans (Function.update_eq_self i _)

@[simp] theorem next_setCallback : (s.setCallback i callback param).next = s.next :=
  (Function.comp_update Timer.next s.timer i _).trans (Function.update_eq_self i _)

@[simp] theorem time_setCallback : (s.setCallback i callback param).time = s.time :=
  (Function.comp_update Timer.time s.timer i _).trans (Function.update_eq_self i _)

end Callback

end TimerList

/-! ## The lists -/

/-- The lists of `s`, where each timer is in the list of its state. -/
structure Holds (s : TimerList N) (F : List (Fin N)) (q : List (Fin N × Nat)) (R : List (Fin N)) : Prop where
  free : Chain s.next s.free F
  active : Chain s.next s.active (q.map Prod.fst)
  fired : Chain s.next s.fired R
  time : ∀ x ∈ q, s.time x.1 = x.2
  mem_free : ∀ i, i ∈ F ↔ s.state i = .free ∧ i ∉ s.taken
  mem_active : ∀ i, i ∈ q.map Prod.fst ↔ s.state i = .active
  mem_fired : ∀ i, i ∈ R ↔ s.state i = .fired
  taken : ∀ i ∈ s.taken, s.state i = .free
  taken_nodup : s.taken.Nodup
  /-- The timer of the HAL was started for the first one. -/
  load : ∀ x ∈ q.head?, s.load = (halTimerStart x.2 s).load
  bound : ∀ x ∈ q, x.2 < 2 ^ 32

variable {s s' : TimerList N} {F R : List (Fin N)} {q q' : List (Fin N × Nat)}

/-- A list of timers is not longer than the loops run. -/
theorem length_le_of_chain {p : Option (Fin N)} {l : List (Fin N)} (h : Chain s.next p l) : l.length ≤ N := by
  have := h.nodup.length_le_card
  rwa [Fintype.card_fin] at this

theorem Holds.head (h : Holds s F q R) {x : Fin N × Nat} (hx : x ∈ q.head?) : s.active = some x.1 ∧ s.time x.1 = x.2 := by
  refine ⟨?_, h.time x (List.mem_of_mem_head? hx)⟩
  rw [h.active.head_eq, List.head?_map, Option.mem_def.1 hx]
  rfl

/-- Where the timer `i` is in the active list. -/
theorem Holds.between {i : Fin N} {d : Nat} {p l : List (Fin N × Nat)} (h : Holds s F (p ++ (i, d) :: l) R) :
    s.next i = (l.map Prod.fst).head? ∧ (s.active = some i ↔ p = []) := by
  have hc := h.active
  have hnd := hc.nodup
  rw [List.map_append] at hc
  obtain ⟨_, -, hseg⟩ := seg_append.1 hc
  refine ⟨Chain.head_eq hseg.2, ?_⟩
  cases p with
  | nil => exact iff_of_true hc.1 rfl
  | cons x p =>
    have hx : s.active = some x.1 := hc.1
    refine iff_of_false (fun he => ?_) (by simp)
    rw [List.cons_append, List.map_cons, List.nodup_cons, Option.some.inj (hx.symm.trans he)] at hnd
    exact hnd.1 (by simp)

/-! ## The loops -/

/-- The loop of `__hwtimer_start_int`. -/
theorem placeLoop_eq {p : Option (Fin N)} (hc : Chain s.next p (q.map Prod.fst)) (ht : ∀ x ∈ q, s.time x.1 = x.2)
    {fuel : Nat} (hf : q.length ≤ fuel) (pre : Fin N) (ticks : Nat) :
    placeLoop s fuel pre p ticks =
      some (((place ticks q).1.map Prod.fst).getLast?.getD pre, ((place ticks q).2.2.map Prod.fst).head?,
        (place ticks q).2.1) := by
  induction q generalizing p fuel pre ticks with
  | nil =>
    obtain rfl : p = none := hc
    cases fuel <;> rfl
  | cons x q ih =>
    obtain ⟨rfl, hc⟩ := hc
    cases fuel with
    | zero => simp at hf
    | succ fuel =>
      have hx := ht x (by simp)
      by_cases h : x.2 < ticks
      · have hp : place ticks (x :: q) = _ := advance_of_before h
        rw [placeLoop, hx, if_pos h, ih hc (fun y hy => ht y (by simp [hy])) (by simpa using hf), hp]
        simp only [List.map_cons, List.getLast?_cons, Option.getD_some]
      · have hp : place ticks (x :: q) = _ := advance_of_not_before h
        rw [placeLoop, hx, if_neg h, hp]
        rfl

/-- The timers `l`, marked as fired. -/
def fire (l : List (Fin N)) (s : TimerList N) : TimerList N := l.foldl (fun s i => s.setState i .fired) s

theorem fire_state (l : List (Fin N)) (s : TimerList N) (j : Fin N) :
    (fire l s).state j = if j ∈ l then .fired else s.state j := by
  induction l generalizing s with
  | nil => simp [fire]
  | cons i l ih =>
    rw [fire, List.foldl_cons, ← fire, ih]
    by_cases hj : j = i
    · subst hj; simp
    · simp [hj]

/-- Nothing else changes. -/
theorem fire_frame (l : List (Fin N)) (s : TimerList N) :
    (fire l s).next = s.next ∧ (fire l s).time = s.time ∧ fire l s = { s with timer := (fire l s).timer } := by
  induction l generalizing s with
  | nil => exact ⟨rfl, rfl, rfl⟩
  | cons i l ih =>
    obtain ⟨h₁, h₂, h₃⟩ := ih (s.setState i .fired)
    refine ⟨?_, ?_, h₃⟩
    · rw [fire, List.foldl_cons, ← fire, h₁, TimerList.next_setState]
    · rw [fire, List.foldl_cons, ← fire, h₂, TimerList.time_setState]

/-- The loop of `hwtimer_handler`. -/
theorem fireLoop_eq {p : Option (Fin N)} (hc : Chain s.next p (q.map Prod.fst)) (ht : ∀ x ∈ q, s.time x.1 = x.2)
    {fuel : Nat} (hf : q.length ≤ fuel) (pre : Fin N) (elapsed : Nat) :
    fireLoop fuel elapsed pre p s =
      some ((due elapsed q).2.1, ((due elapsed q).1.map Prod.fst).getLast?.getD pre,
        ((due elapsed q).2.2.map Prod.fst).head?, fire ((due elapsed q).1.map Prod.fst) s) := by
  induction q generalizing p fuel pre elapsed s with
  | nil =>
    obtain rfl : p = none := hc
    cases fuel <;> rfl
  | cons x q ih =>
    obtain ⟨rfl, hc⟩ := hc
    cases fuel with
    | zero => simp at hf
    | succ fuel =>
      have hx := ht x (by simp)
      by_cases h : x.2 ≤ elapsed
      · have hp : due elapsed (x :: q) = _ := advance_of_before h
        have hc' : Chain (s.setState x.1 .fired).next (s.next x.1) (q.map Prod.fst) := by
          rwa [TimerList.next_setState]
        rw [fireLoop, hx, if_pos h, ih hc' (fun y hy => by simpa using ht y (by simp [hy])) (by simpa using hf), hp]
        simp only [List.map_cons, List.getLast?_cons, Option.getD_some, fire, List.foldl_cons]
      · have hp : due elapsed (x :: q) = _ := advance_of_not_before h
        rw [fireLoop, hx, if_neg h, hp]
        rfl

/-- The loop of `hwtimer_stop`. -/
theorem catchUpLoop_spec {p : Option (Fin N)} (hc : Chain s.next p (q.map Prod.fst))
    (ht : ∀ x ∈ q, s.time x.1 = x.2) {fuel : Nat} (hf : q.length ≤ fuel) (elapsed : Nat) :
    ∃ s', catchUpLoop fuel elapsed p s = some s' ∧ s'.next = s.next ∧ s'.state = s.state ∧
      s' = { s with timer := s'.timer } ∧ (∀ x ∈ catchUp elapsed q, s'.time x.1 = x.2) ∧
      ∀ i ∉ q.map Prod.fst, s'.time i = s.time i := by
  induction q generalizing p fuel elapsed s with
  | nil =>
    obtain rfl : p = none := hc
    refine ⟨s, by cases fuel <;> rfl, rfl, rfl, rfl, fun x hx => ?_, fun _ _ => rfl⟩
    simp [catchUp] at hx
  | cons x q ih =>
    have hnd := hc.nodup
    obtain ⟨rfl, hc⟩ := hc
    rw [List.map_cons, List.nodup_cons] at hnd
    have hne : ∀ y ∈ q, y.1 ≠ x.1 := fun y hy he => hnd.1 (he ▸ List.mem_map_of_mem hy)
    cases fuel with
    | zero => simp at hf
    | succ fuel =>
      have hx := ht x (by simp)
      have htq : ∀ (t : Nat), ∀ y ∈ q, (s.setTime x.1 t).time y.1 = y.2 := fun t y hy => by
        rw [TimerList.time_setTime, Function.update_of_ne (hne y hy), ht y (by simp [hy])]
      rw [catchUpLoop, catchUp, hx]
      split
      · have hc' : Chain (s.setTime x.1 0).next (s.next x.1) (q.map Prod.fst) := by rwa [TimerList.next_setTime]
        obtain ⟨s', hs', hn, hst, hfr, htime, hout⟩ := ih hc' (htq 0) (by simpa using hf) (elapsed - x.2)
        refine ⟨s', hs', by simpa using hn, by simpa using hst, hfr, ?_, ?_⟩
        · rintro y (_ | ⟨_, hy⟩)
          · rw [hout _ hnd.1]; simp
          · exact htime y hy
        · intro i hi
          rw [List.map_cons, List.mem_cons, not_or] at hi
          rw [hout i hi.2, TimerList.time_setTime, Function.update_of_ne hi.1]
      · refine ⟨_, rfl, by simp, by simp, rfl, ?_, ?_⟩
        · rintro y (_ | ⟨_, hy⟩)
          · simp
          · exact htq _ y hy
        · intro i hi
          rw [List.map_cons, List.mem_cons, not_or] at hi
          rw [TimerList.time_setTime, Function.update_of_ne hi.1]

/-- The search of `hwtimer_stop`: `p` are the timers in front of `i`. -/
theorem findPre_eq {l₁ l₂ : List (Fin N)} {i p : Fin N} (hc : Chain s.next (s.next p) (l₁ ++ i :: l₂))
    {fuel : Nat} (hf : (l₁ ++ i :: l₂).length ≤ fuel) :
    findPre s i fuel p (s.next p) = some (some (l₁.getLast?.getD p)) := by
  induction l₁ generalizing p fuel with
  | nil =>
    cases fuel with
    | zero => simp at hf
    | succ fuel =>
      rw [hc.1, findPre, if_pos rfl]
      rfl
  | cons a l₁ ih =>
    have hnd := hc.nodup
    have hai : a ≠ i := by
      rintro rfl
      simp at hnd
    cases fuel with
    | zero => simp at hf
    | succ fuel =>
      rw [hc.1, findPre, if_neg hai, ih hc.2 (by simpa using hf)]
      simp only [List.getLast?_cons, Option.getD_some]

/-! ## `__hwtimer_start_int` -/

/-- Timer `i` has become active, and the queue is now `q'`. -/
theorem Holds.put (h : Holds s F q R) {i : Fin N} (hi : s.state i = .alloc ∨ s.state i = .callback)
    (hst : s'.state = Function.update s.state i .active) (hf : s'.free = s.free) (hr : s'.fired = s.fired)
    (ht : s'.taken = s.taken) (hn : ∀ j, j ∉ q'.map Prod.fst → s'.next j = s.next j)
    (hc : Chain s'.next s'.active (q'.map Prod.fst))
    (hq : ∀ j, j ∈ q'.map Prod.fst ↔ j = i ∨ j ∈ q.map Prod.fst) (htime : ∀ x ∈ q', s'.time x.1 = x.2)
    (hload : ∀ x ∈ q'.head?, s'.load = (halTimerStart x.2 s').load) (hb : ∀ x ∈ q', x.2 < 2 ^ 32) :
    Holds s' F q' R := by
  have hother : ∀ j, s.state j = .free ∨ s.state j = .fired → j ∉ q'.map Prod.fst ∧ j ≠ i := by
    intro j hj
    have hji : j ≠ i := by
      rintro rfl
      rcases hi with hi | hi <;> rw [hi] at hj <;> simp at hj
    refine ⟨fun hm => ?_, hji⟩
    have := (h.mem_active j).1 (((hq j).1 hm).resolve_left hji)
    rw [this] at hj
    simp at hj
  refine ⟨?_, hc, ?_, htime, fun j => ?_, fun j => ?_, fun j => ?_, ?_, by rw [ht]; exact h.taken_nodup, hload, hb⟩
  · rw [hf]
    exact h.free.congr fun j hj => hn j (hother j (.inl ((h.mem_free j).1 hj).1)).1
  · rw [hr]
    exact h.fired.congr fun j hj => hn j (hother j (.inr ((h.mem_fired j).1 hj))).1
  · rw [hst, ht, h.mem_free]
    by_cases hj : j = i
    · subst hj
      rcases hi with hi | hi <;> simp [hi]
    · simp [hj]
  · rw [hst, hq, h.mem_active]
    by_cases hj : j = i
    · simp [hj]
    · simp [hj]
  · rw [hst, h.mem_fired]
    by_cases hj : j = i
    · subst hj
      rcases hi with hi | hi <;> simp [hi]
    · simp [hj]
  · rw [ht, hst]
    intro j hj
    have hfree := h.taken j hj
    rw [Function.update_of_ne (hother j (.inl hfree)).2, hfree]

/-- What a start of `i` makes of the queue, where the timer of the HAL says
`count`; and the time from which its differences are. -/
def startQueue (i : Fin N) (ticks count now base : Nat) : List (Fin N × Nat) → Nat × List (Fin N × Nat)
  | [] => (now, [(i, ticks)])
  | x :: q =>
    if count > ticks then (now, (i, ticks) :: (x.1, count - ticks) :: q)
    else
      let r := place (ticks - count) q
      (base, x :: (r.1 ++ (i, r.2.1) :: mapHead (· - r.2.1) r.2.2))

/-- The queue `q` has become `r`, and nothing else has changed. -/
structure Relinked (s s' : TimerList N) (q : List (Fin N × Nat)) (r : Nat × List (Fin N × Nat)) : Prop where
  active : Chain s'.next s'.active (r.2.map Prod.fst)
  time : ∀ x ∈ r.2, s'.time x.1 = x.2
  load : ∀ x ∈ r.2.head?, s'.load = (halTimerStart x.2 s').load
  base : s'.start_time = r.1
  state : s'.state = s.state
  next : ∀ j, j ∉ q.map Prod.fst → j ∉ r.2.map Prod.fst → s'.next j = s.next j
  free : s'.free = s.free
  fired : s'.fired = s.fired
  taken : s'.taken = s.taken
  now : s'.now = s.now
  handling : s'.handling = s.handling

theorem time_update {time : Fin N → Nat} (h : ∀ x ∈ q, time x.1 = x.2) {i : Fin N} (hi : i ∉ q.map Prod.fst) (t : Nat) :
    ∀ x ∈ q, Function.update time i t x.1 = x.2 := by
  intro x hx
  have hxi : x.1 ≠ i := fun he => hi (he ▸ List.mem_map_of_mem hx)
  rw [Function.update_of_ne hxi, h x hx]

/-- The time of the timer at `p`, changed. -/
def mapTime (f : Nat → Nat) (p : Option (Fin N)) (s : TimerList N) : TimerList N :=
  match p with
  | some next => s.setTime next (f (s.time next))
  | none => s

theorem mapTime_time (ht : ∀ x ∈ q, s.time x.1 = x.2) (hnd : (q.map Prod.fst).Nodup) (f : Nat → Nat) :
    (∀ x ∈ mapHead f q, (mapTime f (q.map Prod.fst).head? s).time x.1 = x.2) ∧
    ∀ j ∉ q.map Prod.fst, (mapTime f (q.map Prod.fst).head? s).time j = s.time j := by
  cases q with
  | nil => exact ⟨fun x hx => by simp [mapHead] at hx, fun _ _ => rfl⟩
  | cons x q =>
    rw [List.map_cons, List.nodup_cons] at hnd
    simp only [List.map_cons, List.head?_cons, mapTime, TimerList.time_setTime]
    constructor
    · rintro y (_ | ⟨_, hy⟩)
      · simp [ht x (by simp)]
      · exact time_update (fun y hy => ht y (by simp [hy])) hnd.1 _ y hy
    · intro j hj
      rw [List.mem_cons, not_or] at hj
      rw [Function.update_of_ne hj.1]

theorem mapTime_frame (f : Nat → Nat) (p : Option (Fin N)) (s : TimerList N) :
    (mapTime f p s).next = s.next ∧ (mapTime f p s).state = s.state ∧
    mapTime f p s = { s with timer := (mapTime f p s).timer } := by
  cases p with
  | none => exact ⟨rfl, rfl, rfl⟩
  | some j => exact ⟨s.next_setTime j _, s.state_setTime j _, rfl⟩

/-- The timer `i` is the only one. -/
theorem relinked_only (s : TimerList N) (i : Fin N) (ticks : Nat) :
    Relinked s ((halTimerStart ticks { s.setNext i none with active := some i }).setTime i ticks) []
      (s.now, [(i, ticks)]) := by
  have hn : ((s.setNext i none).setTime i ticks).next = Function.update s.next i none := by
    rw [TimerList.next_setTime, TimerList.next_setNext]
  have htime : ((s.setNext i none).setTime i ticks).time = Function.update s.time i ticks := by
    rw [TimerList.time_setTime, TimerList.time_setNext]
  have hst : ((s.setNext i none).setTime i ticks).state = s.state := by
    rw [TimerList.state_setTime, TimerList.state_setNext]
  refine ⟨⟨rfl, ?_⟩, ?_, ?_, rfl, hst, fun j _ hj => ?_, rfl, rfl, rfl, rfl, rfl⟩
  · show ((s.setNext i none).setTime i ticks).next i = none
    rw [hn, Function.update_self]
  · show ∀ x ∈ [(i, ticks)], ((s.setNext i none).setTime i ticks).time x.1 = x.2
    rw [htime]
    simp
  · intro x hx
    cases hx
    rfl
  · show ((s.setNext i none).setTime i ticks).next j = s.next j
    rw [hn, Function.update_of_ne]
    rintro rfl
    exact hj (by simp)

/-- The timer `i` is put in front of the first one, which is to wait for `d` then. -/
theorem relinked_front {i : Fin N} {x : Fin N × Nat} (hc : Chain s.next s.active ((x :: q).map Prod.fst))
    (ht : ∀ y ∈ x :: q, s.time y.1 = y.2) (hi : i ∉ (x :: q).map Prod.fst) (ticks d : Nat) :
    Relinked s ((halTimerStart ticks (halTimerStop
        { (s.setTime x.1 d).setNext i (some x.1) with active := some i })).setTime i ticks)
      (x :: q) (s.now, (i, ticks) :: (x.1, d) :: q) := by
  let u := (s.setTime x.1 d).setNext i (some x.1)
  have hn : (u.setTime i ticks).next = Function.update s.next i (some x.1) := by
    simp only [u, TimerList.next_setTime, TimerList.next_setNext]
  have htime : (u.setTime i ticks).time = Function.update (Function.update s.time x.1 d) i ticks := by
    simp only [u, TimerList.time_setTime, TimerList.time_setNext]
  have hst : (u.setTime i ticks).state = s.state := by
    simp only [u, TimerList.state_setTime, TimerList.state_setNext]
  have hxi : x.1 ≠ i := fun he => hi (by simp [he])
  have hiq : i ∉ q.map Prod.fst := fun h => hi (by simp [h])
  have hxq : x.1 ∉ q.map Prod.fst := (List.nodup_cons.1 hc.nodup).1
  refine ⟨?_, ?_, ?_, rfl, hst, fun j hj hj' => ?_, rfl, rfl, rfl, rfl, rfl⟩
  · have := hc.push hi
    rw [hc.1, ← hn] at this
    exact this
  · show ∀ y ∈ (i, ticks) :: (x.1, d) :: q, (u.setTime i ticks).time y.1 = y.2
    rw [htime]
    rintro y (_ | ⟨_, _ | ⟨_, hy⟩⟩)
    · rw [Function.update_self]
    · rw [Function.update_of_ne hxi, Function.update_self]
    · exact time_update (time_update (fun z hz => ht z (by simp [hz])) hxq _) hiq _ y hy
  · intro y hy
    cases hy
    rfl
  · show (u.setTime i ticks).next j = s.next j
    rw [hn, Function.update_of_ne]
    rintro rfl
    exact hj' (by simp)

/-- The timer `i` is put between `l` and `m`, to wait for `t` behind `l`. -/
theorem relinked_between {i pre : Fin N} {x : Fin N × Nat} {l m : List (Fin N × Nat)}
    (hc : Chain s.next s.active ((x :: (l ++ m)).map Prod.fst)) (ht : ∀ y ∈ x :: (l ++ m), s.time y.1 = y.2)
    (hl : s.load = (halTimerStart x.2 s).load) (hi : i ∉ (x :: (l ++ m)).map Prod.fst)
    (hlast : (x.1 :: l.map Prod.fst).getLast? = some pre) (t : Nat) :
    Relinked s ((((mapTime (· - t) (m.map Prod.fst).head? s).setNext pre (some i)).setNext i (m.map Prod.fst).head?).setTime i t)
      (x :: (l ++ m)) (s.start_time, x :: (l ++ (i, t) :: mapHead (· - t) m)) := by
  obtain ⟨hfn, hfs, hfr⟩ := mapTime_frame (· - t) (m.map Prod.fst).head? s
  have hsplit : (x :: (l ++ m)).map Prod.fst = (x.1 :: l.map Prod.fst) ++ m.map Prod.fst := by simp
  rw [hsplit] at hc hi
  have hnd := List.nodup_append.1 hc.nodup
  obtain ⟨hsm, hso⟩ := mapTime_time (s := s) (fun y hy => ht y (by simp [hy])) hnd.2.1 (· - t)
  let u := ((mapTime (· - t) (m.map Prod.fst).head? s).setNext pre (some i)).setNext i (m.map Prod.fst).head?
  have hn : (u.setTime i t).next =
      Function.update (Function.update s.next pre (some i)) i (m.map Prod.fst).head? := by
    simp only [u, TimerList.next_setTime, TimerList.next_setNext, hfn]
  have htime : (u.setTime i t).time = Function.update (mapTime (· - t) (m.map Prod.fst).head? s).time i t := by
    simp only [u, TimerList.time_setTime, TimerList.time_setNext]
  have hst : (u.setTime i t).state = s.state := by
    simp only [u, TimerList.state_setTime, TimerList.state_setNext, hfs]
  have hactive : (u.setTime i t).active = s.active := by
    show (mapTime (· - t) (m.map Prod.fst).head? s).active = s.active
    rw [hfr]
  refine ⟨?_, ?_, fun y hy => ?_, ?_, hst, fun j hj hj' => ?_, ?_, ?_, ?_, ?_, ?_⟩
  · show Chain (u.setTime i t).next (u.setTime i t).active _
    rw [hn, hactive]
    simpa using hc.insert hlast hi
  · show ∀ y ∈ x :: (l ++ (i, t) :: mapHead (· - t) m), (u.setTime i t).time y.1 = y.2
    rw [htime]
    -- those in front of the new one keep their times
    have hfront : ∀ y ∈ x :: l, (mapTime (· - t) (m.map Prod.fst).head? s).time y.1 = y.2 := by
      intro y hy
      have hyl : y.1 ∈ x.1 :: l.map Prod.fst := List.mem_map_of_mem hy
      rw [hso y.1 fun hm => hnd.2.2 _ hyl _ hm rfl, ht y (by rw [← List.cons_append]; exact List.mem_append_left _ hy)]
    have hil : i ∉ (x :: l).map Prod.fst := fun h => hi (List.mem_append_left _ h)
    have him : i ∉ (mapHead (· - t) m).map Prod.fst := by
      rw [map_fst_mapHead]
      exact fun h => hi (List.mem_append_right _ h)
    intro y hy
    rw [← List.cons_append] at hy
    rcases List.mem_append.1 hy with hy | hy
    · exact time_update hfront hil t y hy
    · rcases List.mem_cons.1 hy with rfl | hy
      · rw [Function.update_self]
      · exact time_update hsm him t y hy
  · cases hy
    show (mapTime (· - t) (m.map Prod.fst).head? s).load = _
    rw [hfr]
    exact hl
  · show (mapTime (· - t) (m.map Prod.fst).head? s).start_time = _
    rw [hfr]
  · show (u.setTime i t).next j = s.next j
    rw [hn, Function.update_of_ne, Function.update_of_ne]
    · rintro rfl
      have := List.mem_of_getLast? hlast
      exact hj (by rw [hsplit]; exact List.mem_append_left _ this)
    · rintro rfl
      exact hj' (by simp)
  all_goals
    simp only [TimerList.setTime, TimerList.setNext]
    rw [hfr]

/-- `__hwtimer_start_int` where timers are active. -/
theorem startActive_spec {i : Fin N} {x : Fin N × Nat} {ticks : Nat} {late : Bool}
    (hc : Chain s.next s.active ((x :: q).map Prod.fst)) (ht : ∀ y ∈ x :: q, s.time y.1 = y.2)
    (hl : s.load = (halTimerStart x.2 s).load) (hi : i ∉ (x :: q).map Prod.fst)
    (hs : startActive i x.1 ticks late s = some s') :
    Relinked s s' (x :: q) (startQueue i ticks (halTimerGet late s) s.now s.start_time (x :: q)) := by
  have hlen := length_le_of_chain hc
  rw [startActive] at hs
  split at hs
  · cases hs
  · rw [startQueue]
    split at hs
    · next hgt =>
      rw [if_pos hgt]
      cases hs
      exact relinked_front hc ht hi _ _
    · next hgt =>
      rw [if_neg hgt]
      obtain ⟨hq, -, -⟩ := place_spec (ticks - halTimerGet late s) q
      rw [placeLoop_eq hc.2 (fun y hy => ht y (by simp [hy])) (by simp at hlen; omega)] at hs
      generalize place (ticks - halTimerGet late s) q = r at hq hs ⊢
      obtain ⟨l, t, m⟩ := r
      subst hq
      cases hs
      exact relinked_between hc ht hl hi List.getLast?_cons t

theorem halTimerGet_lt (h : Holds s F q R) (hq : q ≠ []) (late : Bool) : halTimerGet late s < 2 ^ 32 := by
  obtain ⟨x, q, rfl⟩ := List.exists_cons_of_ne_nil hq
  have hx := h.bound x (by simp)
  have hl := h.load x rfl
  simp only [halTimerStart] at hl
  simp only [halTimerGet]
  split at hl <;> omega

theorem startQueue_lt {i : Fin N} {ticks count now base : Nat} (hq : ∀ x ∈ q, x.2 < 2 ^ 32) (ht : ticks < 2 ^ 32)
    (hc : q ≠ [] → count < 2 ^ 32) : ∀ x ∈ (startQueue i ticks count now base q).2, x.2 < 2 ^ 32 := by
  cases q with
  | nil => simpa [startQueue] using ht
  | cons y q =>
    have hq' : ∀ x ∈ q, x.2 < 2 ^ 32 := fun x hx => hq x (by simp [hx])
    have hcount := hc (by simp)
    rw [startQueue]
    split
    · rintro x (_ | ⟨_, _ | ⟨_, hx⟩⟩)
      · exact ht
      · show count - ticks < 2 ^ 32
        omega
      · exact hq' x hx
    · obtain ⟨heq, hsum, -⟩ := place_spec (ticks - count) q
      generalize place (ticks - count) q = r at heq hsum ⊢
      subst heq
      intro x hx
      rcases List.mem_cons.1 hx with rfl | hx
      · exact hq x (by simp)
      rcases List.mem_append.1 hx with hx | hx
      · exact hq' x (List.mem_append_left _ hx)
      rcases List.mem_cons.1 hx with rfl | hx
      · show r.2.1 < 2 ^ 32
        omega
      · have hm : ∀ z ∈ r.2.2, z.2 < 2 ^ 32 := fun z hz => hq' z (List.mem_append_right _ hz)
        exact mapHead_lt (fun t h => by omega) hm x hx

theorem mem_startQueue {i : Fin N} {ticks count now base : Nat} (j : Fin N) :
    j ∈ (startQueue i ticks count now base q).2.map Prod.fst ↔ j = i ∨ j ∈ q.map Prod.fst := by
  cases q with
  | nil => simp [startQueue]
  | cons y q =>
    rw [startQueue]
    split
    · simp
    · have heq := (place_spec (ticks - count) q).1
      generalize place (ticks - count) q = r at heq ⊢
      subst heq
      simp only [List.map_cons, List.map_append, List.mem_cons, List.mem_append, map_fst_mapHead]
      tauto

/-- The queue of `s'` is `r`, and neither time nor the handler has gone on. -/
structure Requeued (s s' : TimerList N) (F R : List (Fin N)) (r : Nat × List (Fin N × Nat)) : Prop where
  holds : Holds s' F r.2 R
  base : s'.start_time = r.1
  now : s'.now = s.now
  handling : s'.handling = s.handling

theorem Relinked.put {s₁ : TimerList N} {r : Nat × List (Fin N × Nat)} (h : Holds s F q R) {i : Fin N}
    (hi : s.state i = .alloc ∨ s.state i = .callback) (hst : s₁.state = Function.update s.state i .active)
    (hn : s₁.next = s.next) (hfr : s₁ = { s with timer := s₁.timer }) (hr : Relinked s₁ s' q r)
    (hq : ∀ j, j ∈ r.2.map Prod.fst ↔ j = i ∨ j ∈ q.map Prod.fst) (hb : ∀ x ∈ r.2, x.2 < 2 ^ 32) :
    Requeued s s' F R r where
  holds := by
    refine h.put hi (hr.state.trans hst) ?_ ?_ ?_ (fun j hj => ?_) hr.active hq hr.time hr.load hb
    · rw [hr.free, hfr]
    · rw [hr.fired, hfr]
    · rw [hr.taken, hfr]
    · have hjq : j ∉ q.map Prod.fst := fun hm => hj ((hq j).2 (.inr hm))
      rw [hr.next j hjq hj, hn]
  base := hr.base
  now := by rw [hr.now, hfr]
  handling := by rw [hr.handling, hfr]

/-- The part of `__hwtimer_start_int` behind the state and the callback. -/
theorem startList_spec {s₁ : TimerList N} {i : Fin N} {ticks : Nat} {late : Bool} {r : Ret} (h : Holds s F q R)
    (hi : s.state i = .alloc ∨ s.state i = .callback) (hst : s₁.state = Function.update s.state i .active)
    (hn : s₁.next = s.next) (ht : s₁.time = s.time) (hfr : s₁ = { s with timer := s₁.timer }) (hlt : ticks < 2 ^ 32)
    (hs : (match s₁.active with
      | none => some (.ok, (halTimerStart ticks { s₁.setNext i none with active := some i }).setTime i ticks)
      | some head => (startActive i head ticks late s₁).map (Ret.ok, ·)) = some (r, s')) :
    Requeued s s' F R (startQueue i ticks (halTimerGet late s) s.now s.start_time q) := by
  have hact : s₁.active = s.active := by rw [hfr]
  have hbase : s₁.start_time = s.start_time := by rw [hfr]
  have hnow : s₁.now = s.now := by rw [hfr]
  have hload : s₁.load = s.load := by rw [hfr]
  have hget : halTimerGet late s₁ = halTimerGet late s := by rw [hfr]; rfl
  have hiq : i ∉ q.map Prod.fst := by
    rw [h.mem_active]
    rcases hi with hi | hi <;> simp [hi]
  refine Relinked.put h hi hst hn hfr ?_ (fun j => mem_startQueue j)
    (startQueue_lt h.bound hlt fun hq => halTimerGet_lt h hq late)
  rw [hact] at hs
  cases q with
  | nil =>
    have hnone : s.active = none := h.active
    rw [hnone] at hs
    cases hs
    rw [startQueue, ← hnow]
    exact relinked_only s₁ i ticks
  | cons x q =>
    have hc := h.active
    rw [hc.1] at hs
    obtain ⟨_, hs, heq⟩ := Option.map_eq_some_iff.1 hs
    cases heq
    rw [← hget, ← hnow, ← hbase]
    refine startActive_spec (by rw [hn, hact]; exact hc) (by rw [ht]; exact h.time) ?_ hiq hs
    rw [hload]
    exact h.load x rfl

/-- `__hwtimer_start_int` of a timer that is known. -/
theorem hwtimerStart_spec (h : Holds s F q R) {i : Fin N} {update : Option (Option Nat × Nat)} {ticks : UInt32}
    {late : Bool} {r : Ret} (hs : hwtimerStart (some i) update ticks late s = some (r, s')) :
    (s.state i ≠ .alloc ∧ s.state i ≠ .callback ∧ s' = s) ∨
    ((s.state i = .alloc ∨ s.state i = .callback) ∧ Requeued s s' F R
      (startQueue i (max ticks.toNat loadDelta) (halTimerGet late s) s.now s.start_time q)) := by
  have hmax : (if ticks.toNat < loadDelta then loadDelta else ticks.toNat) = max ticks.toNat loadDelta := by
    split <;> omega
  have hlt : max ticks.toNat loadDelta < 2 ^ 32 := by
    have := ticks.toNat_lt
    show max ticks.toNat 1 < 2 ^ 32
    omega
  simp only [hwtimerStart, hmax] at hs
  split at hs
  · next hst =>
    cases hs
    exact .inl ⟨hst.1, hst.2, rfl⟩
  · next hst =>
    have hi : s.state i = .alloc ∨ s.state i = .callback := by
      by_contra hi
      rw [not_or] at hi
      exact hst hi
    refine .inr ⟨hi, ?_⟩
    cases update with
    | none => exact startList_spec h hi (s.state_setState i _) (s.next_setState i _) (s.time_setState i _) rfl hlt hs
    | some u => exact startList_spec h hi (by simp) (by simp) (by simp) rfl hlt hs

/-! ## `hwtimer_stop` -/

/-- Timer `i` was active, and the queue without it is `q'`. -/
theorem Holds.takeOut (h : Holds s F q R) {i : Fin N} (hi : s.state i = .active)
    (hst : s'.state = Function.update s.state i .alloc) (hf : s'.free = s.free) (hr : s'.fired = s.fired)
    (ht : s'.taken = s.taken) (hn : ∀ j, j ∉ q.map Prod.fst → s'.next j = s.next j)
    (hc : Chain s'.next s'.active (q'.map Prod.fst))
    (hq : ∀ j, j ∈ q'.map Prod.fst ↔ j ≠ i ∧ j ∈ q.map Prod.fst) (htime : ∀ x ∈ q', s'.time x.1 = x.2)
    (hload : ∀ x ∈ q'.head?, s'.load = (halTimerStart x.2 s').load) (hb : ∀ x ∈ q', x.2 < 2 ^ 32) :
    Holds s' F q' R := by
  have hother : ∀ j, s.state j ≠ .active → j ∉ q.map Prod.fst := fun j hj hm => hj ((h.mem_active j).1 hm)
  refine ⟨?_, hc, ?_, htime, fun j => ?_, fun j => ?_, fun j => ?_, ?_, by rw [ht]; exact h.taken_nodup, hload, hb⟩
  · rw [hf]
    exact h.free.congr fun j hj => hn j (hother j (by rw [((h.mem_free j).1 hj).1]; simp))
  · rw [hr]
    exact h.fired.congr fun j hj => hn j (hother j (by rw [(h.mem_fired j).1 hj]; simp))
  · rw [hst, ht, h.mem_free]
    by_cases hj : j = i
    · subst hj
      simp [hi]
    · simp [hj]
  · rw [hst, hq, h.mem_active]
    by_cases hj : j = i
    · simp [hj]
    · simp [hj]
  · rw [hst, h.mem_fired]
    by_cases hj : j = i
    · subst hj
      simp [hi]
    · simp [hj]
  · rw [ht, hst]
    intro j hj
    have hfree := h.taken j hj
    have hji : j ≠ i := by
      rintro rfl
      rw [hi] at hfree
      cases hfree
    rw [Function.update_of_ne hji, hfree]

/-- What a stop of the timer that waits for `d` between `p` and `l` makes of
the queue, and the time from which its differences are. -/
def stopQueue (d count elapsed now base : Nat) : List (Fin N × Nat) → List (Fin N × Nat) → Nat × List (Fin N × Nat)
  | [], [] => (base, [])
  | [], y :: l => (now, if count = 0 then catchUp (elapsed - d) (y :: l) else mapHead (add32 · count) (y :: l))
  | x :: p, l => (base, x :: (p ++ mapHead (add32 · d) l))

/-- The timer of the HAL is started for what is now the first timer, `y`. -/
theorem relinked_restart {u : TimerList N} {y : Fin N × Nat} {q₀ : List (Fin N × Nat)}
    (hc : Chain s.next (some y.1) (q.map Prod.fst)) (hy : q.head? = some y) (hn : u.next = s.next)
    (hst : u.state = s.state) (ht : ∀ x ∈ q, u.time x.1 = x.2) (hfr : u = { halTimerStop s with timer := u.timer }) :
    Relinked s { halTimerStart (u.time y.1) u with active := some y.1 } q₀ (s.now, q) := by
  refine ⟨?_, ht, fun x hx => ?_, ?_, hst, fun j _ _ => congrFun hn j, ?_, ?_, ?_, ?_, ?_⟩
  · show Chain u.next (some y.1) _
    rw [hn]
    exact hc
  · have hxy : x = y := Option.some.inj ((Option.mem_def.1 hx).symm.trans hy)
    rw [hxy, ht y (List.mem_of_mem_head? hy)]
    rfl
  all_goals
    show _ = _
    simp only [halTimerStart]
    rw [hfr]
    rfl

/-- `hwtimer_stop` of the first active timer. -/
theorem stopHead_spec {x : Fin N × Nat} {late : Bool} (hc : Chain s.next s.active ((x :: q).map Prod.fst))
    (ht : ∀ y ∈ x :: q, s.time y.1 = y.2) (hs : stopHead x.1 late s = some s') :
    Relinked s s' (x :: q) (stopQueue x.2 (halTimerGet late s) (halTimerGetElapsedTime s) s.now s.start_time [] q) := by
  have hlen := length_le_of_chain hc
  have htx : (halTimerStop s).time x.1 = x.2 := ht x (by simp)
  have htq : ∀ y ∈ q, (halTimerStop s).time y.1 = y.2 := fun y hy => ht y (by simp [hy])
  have helapsed : halTimerGetElapsedTime (halTimerStop s) = halTimerGetElapsedTime s := rfl
  simp only [stopHead] at hs
  split at hs
  · cases hs
  · cases q with
    | nil =>
      have hnone : (halTimerStop s).next x.1 = none := hc.2
      rw [hnone] at hs
      cases hs
      exact ⟨rfl, by simp [stopQueue], by simp [stopQueue], rfl, rfl, fun _ _ _ => rfl, rfl, rfl, rfl, rfl, rfl⟩
    | cons y q =>
      have hcq : Chain (halTimerStop s).next (some y.1) ((y :: q).map Prod.fst) := by
        rw [← hc.2.1]
        exact hc.2
      have hsome : (halTimerStop s).next x.1 = some y.1 := hc.2.1
      simp only [hsome, htx, helapsed] at hs
      rw [stopQueue]
      split at hs
      · next hcount =>
        rw [if_pos hcount]
        split at hs
        · cases hs
        · have hsub : (if halTimerGetElapsedTime s > x.2 then halTimerGetElapsedTime s - x.2 else 0) =
              halTimerGetElapsedTime s - x.2 := by
            split <;> omega
          rw [hsub] at hs
          have hlen' : (y :: q).length ≤ N := by simp at hlen ⊢; omega
          obtain ⟨u, hu, hn, hst, hfr, htime, -⟩ := catchUpLoop_spec hcq htq hlen' (halTimerGetElapsedTime s - x.2)
          rw [hu] at hs
          cases hs
          have hcu : Chain s.next (some y.1) ((catchUp (halTimerGetElapsedTime s - x.2) (y :: q)).map Prod.fst) := by
            rw [map_fst_catchUp]
            exact hcq
          have hhead := head_catchUp (halTimerGetElapsedTime s - x.2) y q
          exact relinked_restart (y := (y.1, y.2 - (halTimerGetElapsedTime s - x.2))) hcu hhead hn hst htime hfr
      · next hcount =>
        rw [if_neg hcount]
        cases hs
        obtain ⟨hn, hst, hfr⟩ := mapTime_frame (add32 · (halTimerGet late s)) (some y.1) (halTimerStop s)
        have hq := (mapTime_time htq (Chain.nodup hcq) (add32 · (halTimerGet late s))).1
        exact relinked_restart (y := (y.1, add32 y.2 (halTimerGet late s))) hcq rfl hn hst hq hfr

/-- `hwtimer_stop` of another active timer. -/
theorem stopActive_spec {i : Fin N} {x : Fin N × Nat} {d : Nat} {p l : List (Fin N × Nat)} {count elapsed now : Nat}
    (hc : Chain s.next s.active ((x :: (p ++ (i, d) :: l)).map Prod.fst))
    (ht : ∀ y ∈ x :: (p ++ (i, d) :: l), s.time y.1 = y.2) (hl : s.load = (halTimerStart x.2 s).load)
    (hs : stopActive i x.1 s = some s') :
    Relinked s s' (x :: (p ++ (i, d) :: l)) (stopQueue d count elapsed now s.start_time (x :: p) l) := by
  have hlen := length_le_of_chain hc
  have htd : s.time i = d := ht (i, d) (by simp)
  have hsplit : (x :: (p ++ (i, d) :: l)).map Prod.fst = (x.1 :: p.map Prod.fst) ++ i :: l.map Prod.fst := by simp
  rw [hsplit] at hc hlen
  have hnd := List.nodup_append.1 hc.nodup
  have hlast := List.getLast?_cons (a := x.1) (l := p.map Prod.fst)
  have hcx : Chain s.next (s.next x.1) (p.map Prod.fst ++ i :: l.map Prod.fst) := hc.2
  simp only [stopActive, findPre_eq hcx (Nat.le_of_succ_le hlen)] at hs
  generalize (p.map Prod.fst).getLast?.getD x.1 = pre at hlast hs
  have hnext : s.next i = (l.map Prod.fst).head? := Chain.head_eq (hc.behind hlast).2
  obtain rfl : mapTime (add32 · d) (l.map Prod.fst).head? (s.setNext pre (s.next i)) = s' := by
    rw [hnext] at hs ⊢
    cases l with
    | nil => exact Option.some.inj hs
    | cons y l =>
      have htime : (s.setNext pre (some y.1)).time i = d := by rw [TimerList.time_setNext, htd]
      rw [← htime]
      exact Option.some.inj hs
  obtain ⟨hn, hst, hfr⟩ := mapTime_frame (add32 · d) (l.map Prod.fst).head? (s.setNext pre (s.next i))
  have htl : ∀ y ∈ l, (s.setNext pre (s.next i)).time y.1 = y.2 := fun y hy => by
    rw [TimerList.time_setNext, ht y (by simp [hy])]
  obtain ⟨hl', hout⟩ := mapTime_time htl (List.nodup_cons.1 hnd.2.1).2 (add32 · d)
  rw [TimerList.next_setNext] at hn
  refine ⟨?_, fun y hy => ?_, fun y hy => ?_, ?_, ?_, fun j hj hj' => ?_, ?_, ?_, ?_, ?_, ?_⟩
  · rw [hn, hfr]
    show Chain _ s.active _
    simpa [stopQueue] using hc.remove hlast
  · rcases List.mem_append.1 (List.cons_append.symm ▸ hy : y ∈ (x :: p) ++ mapHead (add32 · d) l) with hy | hy
    · have hyp : y.1 ∈ x.1 :: p.map Prod.fst := List.mem_map_of_mem hy
      rw [hout _ fun hyl => hnd.2.2 _ hyp _ (List.mem_cons_of_mem _ hyl) rfl, TimerList.time_setNext]
      exact ht y (List.cons_append ▸ List.mem_append_left _ hy)
    · exact hl' y hy
  · cases hy
    rw [hfr]
    exact hl
  · rw [hfr]
    rfl
  · rw [hst, TimerList.state_setNext]
  · rw [hn, Function.update_of_ne]
    rintro rfl
    exact hj (hsplit ▸ List.mem_append_left _ (List.mem_of_getLast? hlast))
  all_goals
    rw [hfr]
    rfl

theorem stopQueue_lt {i : Fin N} {d count elapsed now base : Nat} {p l : List (Fin N × Nat)}
    (hq : ∀ x ∈ p ++ (i, d) :: l, x.2 < 2 ^ 32) : ∀ x ∈ (stopQueue d count elapsed now base p l).2, x.2 < 2 ^ 32 := by
  have hl : ∀ x ∈ l, x.2 < 2 ^ 32 := fun x hx => hq x (by simp [hx])
  have hadd : ∀ (n : Nat), ∀ x ∈ mapHead (add32 · n) l, x.2 < 2 ^ 32 := fun n =>
    mapHead_lt (fun t _ => Nat.mod_lt _ (by omega)) hl
  cases p with
  | nil =>
    cases l with
    | nil => simp [stopQueue]
    | cons y l =>
      rw [stopQueue]
      split
      · exact catchUp_lt hl _
      · exact hadd count
  | cons x p =>
    intro y hy
    rcases List.mem_append.1 (List.cons_append.symm ▸ hy : y ∈ (x :: p) ++ mapHead (add32 · d) l) with hy | hy
    · exact hq y (List.mem_append_left _ hy)
    · exact hadd d y hy

theorem mem_without {l₁ l₂ : List (Fin N)} {i j : Fin N} (hnd : (l₁ ++ i :: l₂).Nodup) :
    j ∈ l₁ ++ l₂ ↔ j ≠ i ∧ j ∈ l₁ ++ i :: l₂ := by
  rw [List.nodup_append, List.nodup_cons] at hnd
  rw [List.mem_append, List.mem_append, List.mem_cons]
  constructor
  · rintro (hj | hj)
    · exact ⟨hnd.2.2 j hj i (by simp), .inl hj⟩
    · exact ⟨fun he => hnd.2.1.1 (he ▸ hj), .inr (.inr hj)⟩
  · rintro ⟨hji, hj | hj | hj⟩
    · exact .inl hj
    · exact absurd hj hji
    · exact .inr hj

theorem mem_stopQueue {i : Fin N} {d count elapsed now base : Nat} {p l : List (Fin N × Nat)}
    (hnd : ((p ++ (i, d) :: l).map Prod.fst).Nodup) (j : Fin N) :
    j ∈ (stopQueue d count elapsed now base p l).2.map Prod.fst ↔ j ≠ i ∧ j ∈ (p ++ (i, d) :: l).map Prod.fst := by
  have hmem : (stopQueue d count elapsed now base p l).2.map Prod.fst = p.map Prod.fst ++ l.map Prod.fst := by
    cases p with
    | nil =>
      cases l with
      | nil => rfl
      | cons y l =>
        rw [stopQueue]
        split
        · exact map_fst_catchUp _ _
        · exact map_fst_mapHead (add32 · count) (y :: l)
    | cons x p => simp [stopQueue]
  rw [List.map_append, List.map_cons] at hnd ⊢
  rw [hmem, mem_without hnd]

theorem Relinked.takeOut {s₁ : TimerList N} {r : Nat × List (Fin N × Nat)} (h : Holds s F q R) {i : Fin N}
    (hi : s.state i = .active) (hr : Relinked s s₁ q r)
    (hq : ∀ j, j ∈ r.2.map Prod.fst ↔ j ≠ i ∧ j ∈ q.map Prod.fst) (hb : ∀ x ∈ r.2, x.2 < 2 ^ 32) :
    Requeued s (stopped i s₁).2 F R r where
  holds := by
    have hir : i ∉ r.2.map Prod.fst := fun hm => ((hq i).1 hm).1 rfl
    have hn : ((s₁.setState i .alloc).setNext i none).next = Function.update s₁.next i none := by simp
    refine h.takeOut hi ?_ hr.free hr.fired hr.taken (fun j hj => ?_) ?_ hq ?_ hr.load hb
    · show ((s₁.setState i .alloc).setNext i none).state = _
      simp [hr.state]
    · show ((s₁.setState i .alloc).setNext i none).next j = _
      have hji : j ≠ i := fun he => hj (he ▸ (h.mem_active i).2 hi)
      rw [hn, Function.update_of_ne hji, hr.next j hj fun hm => hj ((hq j).1 hm).2]
    · show Chain ((s₁.setState i .alloc).setNext i none).next s₁.active _
      rw [hn]
      exact hr.active.update_of_notMem hir
    · show ∀ x ∈ r.2, ((s₁.setState i .alloc).setNext i none).time x.1 = x.2
      simpa using hr.time
  base := hr.base
  now := hr.now
  handling := hr.handling

/-- Timer `i` was fired, and the fired list without it is `R'`. -/
theorem Holds.unfire {R' : List (Fin N)} (h : Holds s F q R) {i : Fin N} (hi : s.state i = .fired) {st : State}
    (hidle : st = .alloc ∨ st = .callback) (hst : s'.state = Function.update s.state i st) (htm : s'.time = s.time) (hf : s'.free = s.free)
    (ha : s'.active = s.active) (ht : s'.taken = s.taken) (hld : s'.load = s.load)
    (hn : ∀ j, j ∉ R → s'.next j = s.next j) (hc : Chain s'.next s'.fired R')
    (hR : ∀ j, j ∈ R' ↔ j ≠ i ∧ j ∈ R) : Holds s' F q R' := by
  have hother : ∀ j, s.state j ≠ .fired → j ∉ R := fun j hj hm => hj ((h.mem_fired j).1 hm)
  refine ⟨?_, ?_, hc, by rw [htm]; exact h.time, fun j => ?_, fun j => ?_, fun j => ?_, ?_,
    by rw [ht]; exact h.taken_nodup, ?_, h.bound⟩
  · rw [hf]
    exact h.free.congr fun j hj => hn j (hother j (by rw [((h.mem_free j).1 hj).1]; simp))
  · rw [ha]
    exact h.active.congr fun j hj => hn j (hother j (by rw [(h.mem_active j).1 hj]; simp))
  · rw [hst, ht, h.mem_free]
    by_cases hj : j = i
    · subst hj
      rcases hidle with rfl | rfl <;> simp [hi]
    · simp [hj]
  · rw [hst, h.mem_active]
    by_cases hj : j = i
    · subst hj
      rcases hidle with rfl | rfl <;> simp [hi]
    · simp [hj]
  · rw [hst, hR, h.mem_fired]
    by_cases hj : j = i
    · rcases hidle with rfl | rfl <;> simp [hj]
    · simp [hj]
  · rw [ht, hst]
    intro j hj
    have hfree := h.taken j hj
    have hji : j ≠ i := by
      rintro rfl
      rw [hi] at hfree
      cases hfree
    rw [Function.update_of_ne hji, hfree]
  · intro x hx
    rw [hld]
    exact h.load x hx

/-- `hwtimer_stop` of a fired timer. -/
theorem stopFired_spec (h : Holds s F q R) {i : Fin N} (hi : s.state i = .fired) (hs : stopFired i s = some s') :
    ∃ R', (∀ j, j ∈ R' ↔ j ≠ i ∧ j ∈ R) ∧ Requeued s (stopped i s').2 F R' (s.start_time, q) := by
  obtain ⟨l₁, l₂, rfl⟩ := List.append_of_mem ((h.mem_fired i).2 hi)
  have hc := h.fired
  have hnd := hc.nodup
  have hlen := length_le_of_chain hc
  refine ⟨l₁ ++ l₂, fun j => mem_without hnd, ?_⟩
  have hi' : i ∉ l₁ ++ l₂ := fun hm => ((mem_without hnd).1 hm).1 rfl
  have hkey : Chain (Function.update s'.next i none) s'.fired (l₁ ++ l₂) ∧
      s' = { s with timer := s'.timer, fired := s'.fired } ∧ s'.state = s.state ∧ s'.time = s.time ∧
      ∀ j ∉ l₁ ++ i :: l₂, s'.next j = s.next j := by
    cases l₁ with
    | nil =>
      simp only [stopFired, hc.1, if_pos] at hs
      cases hs
      have hc₂ : Chain s.next (s.next i) l₂ := hc.2
      exact ⟨hc₂.update_of_notMem hi', rfl, rfl, rfl, fun _ _ => rfl⟩
    | cons a l₁ =>
      have hai : a ≠ i := fun he => hi' (by simp [he])
      have hca : Chain s.next (s.next a) (l₁ ++ i :: l₂) := hc.2
      have hlast := List.getLast?_cons (a := a) (l := l₁)
      simp only [stopFired, hc.1, if_neg hai, findPre_eq hca (Nat.le_of_succ_le hlen)] at hs
      generalize l₁.getLast?.getD a = pre at hlast hs
      cases hs
      refine ⟨?_, rfl, s.state_setNext _ _, s.time_setNext _ _, fun j hj => ?_⟩
      · rw [TimerList.next_setNext]
        have hrem : Chain (Function.update s.next pre (s.next i)) s.fired ((a :: l₁) ++ l₂) := Chain.remove hc hlast
        exact hrem.update_of_notMem hi'
      · rw [TimerList.next_setNext, Function.update_of_ne]
        rintro rfl
        exact hj (List.mem_append_left _ (List.mem_of_getLast? hlast))
  obtain ⟨hch, hfr, hst, htm, hn⟩ := hkey
  have hn' : ((s'.setState i .alloc).setNext i none).next = Function.update s'.next i none := by simp
  refine ⟨h.unfire hi (.inl rfl) ?_ ?_ ?_ ?_ ?_ ?_ (fun j hj => ?_) ?_ fun j => mem_without hnd, ?_, ?_, ?_⟩
  · show ((s'.setState i .alloc).setNext i none).state = _
    simp [hst]
  · show ((s'.setState i .alloc).setNext i none).time = _
    simp [htm]
  · show s'.free = s.free
    rw [hfr]
  · show s'.active = s.active
    rw [hfr]
  · show s'.taken = s.taken
    rw [hfr]
  · show s'.load = s.load
    rw [hfr]
  · show ((s'.setState i .alloc).setNext i none).next j = _
    have hji : j ≠ i := fun he => hj (by simp [he])
    rw [hn', Function.update_of_ne hji, hn j hj]
  · show Chain ((s'.setState i .alloc).setNext i none).next s'.fired _
    rw [hn']
    exact hch
  · show s'.start_time = s.start_time
    rw [hfr]
  · show s'.now = s.now
    rw [hfr]
  · show s'.handling = s.handling
    rw [hfr]

/-- `hwtimer_stop` of a timer that is known. -/
theorem hwtimerStop_spec (h : Holds s F q R) {i : Fin N} {late : Bool} {r : Ret}
    (hs : hwtimerStop (some i) late s = some (r, s')) :
    (s.state i ≠ .active ∧ s.state i ≠ .fired ∧ s' = s) ∨
    (s.state i = .fired ∧ ∃ R', (∀ j, j ∈ R' ↔ j ≠ i ∧ j ∈ R) ∧ Requeued s s' F R' (s.start_time, q)) ∨
    (s.state i = .active ∧ ∃ d p l, q = p ++ (i, d) :: l ∧ Requeued s s' F R
      (stopQueue d (halTimerGet late s) (halTimerGetElapsedTime s) s.now s.start_time p l)) := by
  cases hst : s.state i with
  | free =>
    simp only [hwtimerStop, hst] at hs
    cases hs
    exact .inl ⟨by simp, by simp, rfl⟩
  | alloc =>
    simp only [hwtimerStop, hst] at hs
    cases hs
    exact .inl ⟨by simp, by simp, rfl⟩
  | callback =>
    simp only [hwtimerStop, hst] at hs
    cases hs
    exact .inl ⟨by simp, by simp, rfl⟩
  | fired =>
    simp only [hwtimerStop, hst] at hs
    obtain ⟨s₁, h₁, heq⟩ := Option.map_eq_some_iff.1 hs
    obtain ⟨-, rfl⟩ := Prod.mk.inj heq
    exact .inr (.inl ⟨rfl, stopFired_spec h hst h₁⟩)
  | active =>
    refine .inr (.inr ⟨rfl, ?_⟩)
    obtain ⟨⟨j, d⟩, hd, hj⟩ := List.mem_map.1 ((h.mem_active i).2 hst)
    obtain rfl : i = j := hj.symm
    obtain ⟨p, l, rfl⟩ := List.append_of_mem hd
    refine ⟨d, p, l, rfl, ?_⟩
    have hc := h.active
    have hnd := hc.nodup
    simp only [hwtimerStop, hst] at hs
    cases p with
    | nil =>
      simp only [hc.1] at hs
      obtain ⟨s₁, h₁, heq⟩ := Option.map_eq_some_iff.1 hs
      obtain ⟨-, rfl⟩ := Prod.mk.inj heq
      exact (stopHead_spec hc h.time h₁).takeOut h hst (fun j => mem_stopQueue hnd j) (stopQueue_lt h.bound)
    | cons x p =>
      have hx : x.1 ≠ i := fun he => by
        rw [List.cons_append, List.map_cons, List.nodup_cons, he] at hnd
        exact hnd.1 (by simp)
      simp only [hc.1, if_neg hx] at hs
      obtain ⟨s₁, h₁, heq⟩ := Option.map_eq_some_iff.1 hs
      obtain ⟨-, rfl⟩ := Prod.mk.inj heq
      exact (stopActive_spec hc h.time (h.load x rfl) h₁).takeOut h hst (fun j => mem_stopQueue hnd j)
        (stopQueue_lt h.bound)

/-! ## The handler -/

/-- A timer that is in no list has changed its state, or its callback. -/
theorem Holds.mark (h : Holds s F q R) {i : Fin N} (hi : s.state i = .alloc ∨ s.state i = .callback) {st : State}
    (hidle : st = .alloc ∨ st = .callback) (hst : s'.state = Function.update s.state i st) (hn : s'.next = s.next)
    (htm : s'.time = s.time) (hfr : s' = { s with timer := s'.timer, handling := s'.handling }) : Holds s' F q R := by
  have hsame : ∀ st', st' = .free ∨ st' = .active ∨ st' = .fired → ∀ j, s'.state j = st' ↔ s.state j = st' := by
    intro st' hst' j
    rw [hst]
    by_cases hj : j = i
    · subst hj
      rcases hst' with rfl | rfl | rfl <;> rcases hidle with rfl | rfl <;> rcases hi with hi | hi <;> simp [hi]
    · rw [Function.update_of_ne hj]
  have htaken : s'.taken = s.taken := by rw [hfr]
  refine ⟨?_, ?_, ?_, by rw [htm]; exact h.time, fun j => ?_, fun j => ?_, fun j => ?_, fun j hj => ?_,
    by rw [htaken]; exact h.taken_nodup, ?_, h.bound⟩
  · rw [hn, hfr]
    exact h.free
  · rw [hn, hfr]
    exact h.active
  · rw [hn, hfr]
    exact h.fired
  · rw [hsame .free (.inl rfl), htaken, h.mem_free]
  · rw [hsame .active (.inr (.inl rfl)), h.mem_active]
  · rw [hsame .fired (.inr (.inr rfl)), h.mem_fired]
  · rw [hsame .free (.inl rfl)]
    exact h.taken j (htaken ▸ hj)
  · rw [hfr]
    exact h.load

/-- The handler takes the first timer off the fired list. -/
theorem Holds.serve {i : Fin N} (h : Holds s F q (i :: R)) :
    Holds (({ s with fired := s.next i }.setState i .callback).setNext i none) F q R := by
  have hnd := List.nodup_cons.1 h.fired.nodup
  have hn : (({ s with fired := s.next i }.setState i .callback).setNext i none).next =
      Function.update s.next i none := by
    rw [TimerList.next_setNext, TimerList.next_setState]
    rfl
  refine h.unfire ((h.mem_fired i).1 (by simp)) (.inr rfl) ?_ ?_ rfl rfl rfl rfl (fun j hj => ?_) ?_ fun j => ?_
  · rw [TimerList.state_setNext, TimerList.state_setState]
    rfl
  · rw [TimerList.time_setNext, TimerList.time_setState]
    rfl
  · rw [hn, Function.update_of_ne fun he => hj (by simp [he])]
  · rw [hn]
    have hR : Chain s.next (s.next i) R := h.fired.2
    exact hR.update_of_notMem hnd.1
  · rw [List.mem_cons]
    constructor
    · exact fun hj => ⟨fun he => hnd.1 (he ▸ hj), .inr hj⟩
    · exact fun hj => hj.2.resolve_left hj.1

/-- The loop over the fired list: it ends, or calls the callback of a fired
timer. -/
theorem serveFired_spec {fuel : Nat} (h : Holds s F q R) (hf : R.length ≤ fuel) :
    ∃ s' R', serveFired fuel s = some s' ∧ Requeued { s with handling := s'.handling } s' F R' (s.start_time, q) ∧
      (∀ j ∈ R', j ∈ R) ∧ ((s'.handling = none ∧ R' = []) ∨ ∃ i ∈ R, s'.handling = some i) := by
  induction R generalizing s fuel with
  | nil =>
    have hnone : s.fired = none := h.fired
    refine ⟨{ s with handling := none }, [], ?_, ⟨⟨h.free, h.active, h.fired, h.time, h.mem_free, h.mem_active,
      h.mem_fired, h.taken, h.taken_nodup, h.load, h.bound⟩, rfl, rfl, rfl⟩, by simp, .inl ⟨rfl, rfl⟩⟩
    rw [serveFired, hnone]
  | cons i R ih =>
    cases fuel with
    | zero => simp at hf
    | succ fuel =>
      have hsome : s.fired = some i := h.fired.1
      have hserve := h.serve
      rw [serveFired, hsome]
      simp only
      generalize hs₁ : ({ s with fired := s.next i }.setState i .callback).setNext i none = s₁ at hserve
      have hbase : s₁.start_time = s.start_time := by rw [← hs₁]; rfl
      have hnow : s₁.now = s.now := by rw [← hs₁]; rfl
      have hst : s₁.state i = .callback := by simp [← hs₁]
      split
      · refine ⟨_, R, rfl, ⟨?_, hbase, hnow, rfl⟩, fun j hj => List.mem_cons_of_mem _ hj, .inr ⟨i, by simp, rfl⟩⟩
        exact ⟨hserve.free, hserve.active, hserve.fired, hserve.time, hserve.mem_free, hserve.mem_active,
          hserve.mem_fired, hserve.taken, hserve.taken_nodup, hserve.load, hserve.bound⟩
      · have hmark : Holds (s₁.setState i .alloc) F q R :=
          hserve.mark (.inr hst) (.inl rfl) (s₁.state_setState i _) (s₁.next_setState i _) (s₁.time_setState i _) rfl
        obtain ⟨s', R', hs', hq, hR, hend⟩ := ih hmark (by simpa using hf)
        refine ⟨s', R', hs', ⟨hq.holds, hq.base.trans hbase, hq.now.trans hnow, rfl⟩,
          fun j hj => List.mem_cons_of_mem _ (hR j hj), ?_⟩
        rcases hend with hend | ⟨j, hj, hh⟩
        · exact .inl hend
        · exact .inr ⟨j, List.mem_cons_of_mem _ hj, hh⟩

/-- The timers `l` have expired, and those behind them have waited for `t`. -/
theorem Holds.expire {l m : List (Fin N × Nat)} {pre : Fin N} {t : Nat} (h : Holds s F (l ++ m) [])
    (hlast : (l.map Prod.fst).getLast? = some pre)
    (hst : ∀ j, s'.state j = if j ∈ l.map Prod.fst then .fired else s.state j)
    (hn : s'.next = Function.update s.next pre none) (hf : s'.free = s.free) (ht : s'.taken = s.taken)
    (hr : s'.fired = s.active) (ha : s'.active = (m.map Prod.fst).head?)
    (htime : ∀ x ∈ mapHead (· - t) m, s'.time x.1 = x.2)
    (hload : ∀ x ∈ (mapHead (· - t) m).head?, s'.load = (halTimerStart x.2 s').load) :
    Holds s' F (mapHead (· - t) m) (l.map Prod.fst) := by
  have hc := h.active
  rw [List.map_append] at hc
  obtain ⟨hcl, hcm⟩ := hc.cut hlast
  have hactive : ∀ j ∈ l.map Prod.fst, s.state j = .active := fun j hj =>
    (h.mem_active j).1 (by rw [List.map_append]; exact List.mem_append_left _ hj)
  have hfree : ∀ j, s.state j = .free → j ∉ l.map Prod.fst := fun j hj hm => by
    rw [hactive j hm] at hj
    cases hj
  refine ⟨?_, ?_, ?_, htime, fun j => ?_, fun j => ?_, fun j => ?_, fun j hj => ?_, by rw [ht]; exact h.taken_nodup,
    hload, ?_⟩
  · rw [hf, hn]
    exact h.free.update_of_notMem fun hm => hfree pre ((h.mem_free pre).1 hm).1 (List.mem_of_getLast? hlast)
  · rw [hn, ha, map_fst_mapHead]
    exact hcm
  · rw [hn, hr]
    exact hcl
  · rw [h.mem_free, ht, hst]
    split
    · next hj => simp [hactive j hj]
    · rfl
  · rw [map_fst_mapHead, hst]
    have hj := h.mem_active j
    rw [List.map_append, List.mem_append] at hj
    split
    · next hjl =>
      have := (List.nodup_append.1 hc.nodup).2.2 j hjl j
      simp only [reduceCtorEq, iff_false]
      exact fun hjm => this hjm rfl
    · next hjl => exact ⟨fun hjm => hj.1 (.inr hjm), fun he => (hj.2 he).resolve_left hjl⟩
  · rw [hst]
    split
    · next hj => exact iff_of_true hj rfl
    · next hj => exact iff_of_false hj fun he => by simpa using (h.mem_fired j).2 he
  · rw [ht] at hj
    rw [hst, if_neg (hfree j (h.taken j hj)), h.taken j hj]
  · exact mapHead_lt (fun _ _ => by omega) fun x hx => h.bound x (List.mem_append_right _ hx)

/-- `hwtimer_handler`, up to the first callback, where no timer is fired yet:
`m` are the timers whose time has not come. -/
theorem hwtimerHandler_spec (h : Holds s F q []) (hs : hwtimerHandler s = some s') :
    s' = s ∨ ∃ x q₀ l t m s₁, q = x :: q₀ ∧ x.2 ≤ halTimerGetElapsedTime s + loadDelta ∧
      due (halTimerGetElapsedTime s - x.2) q₀ = (l, t, m) ∧ Holds s₁ F (mapHead (· - t) m) ((x :: l).map Prod.fst) ∧
      (m ≠ [] → s₁.start_time = s.now) ∧ s₁.now = s.now ∧ serveFired N s₁ = some s' := by
  have hc := h.active
  have hlen := length_le_of_chain hc
  rw [hwtimerHandler] at hs
  cases q with
  | nil =>
    have hnone : s.active = none := hc
    rw [hnone] at hs
    simp only at hs
    split at hs
    · cases hs
    · exact .inl (Option.some.inj hs).symm
  | cons x q =>
    have htx : s.time x.1 = x.2 := h.time x (by simp)
    simp only [hc.1, htx] at hs
    split at hs
    · split at hs
      · exact .inl (Option.some.inj hs).symm
      · cases hs
    · next hle =>
      have hsub : (if halTimerGetElapsedTime s > x.2 then halTimerGetElapsedTime s - x.2 else 0) =
          halTimerGetElapsedTime s - x.2 := by
        split <;> omega
      have hcq : Chain (s.setState x.1 .fired).next (s.next x.1) (q.map Prod.fst) := by
        rw [TimerList.next_setState]
        exact hc.2
      have htq : ∀ y ∈ q, (s.setState x.1 .fired).time y.1 = y.2 := fun y hy => by
        rw [TimerList.time_setState, h.time y (by simp [hy])]
      rw [hsub, fireLoop_eq hcq htq (by simp at hlen; omega)] at hs
      obtain ⟨hq, -, -⟩ := due_spec (halTimerGetElapsedTime s - x.2) q
      generalize hr : due (halTimerGetElapsedTime s - x.2) q = r at hs hq
      obtain ⟨l, t, m⟩ := r
      simp only at hq hs
      subst hq
      have hlast := List.getLast?_cons (a := x.1) (l := l.map Prod.fst)
      generalize (l.map Prod.fst).getLast?.getD x.1 = pre at hlast hs
      obtain ⟨hfn, hft, hfr⟩ := fire_frame (l.map Prod.fst) (s.setState x.1 .fired)
      have hfs := fire_state (l.map Prod.fst) (s.setState x.1 .fired)
      generalize fire (l.map Prod.fst) (s.setState x.1 .fired) = u at hs hfn hft hfr hfs
      have hst : ∀ j, (u.setNext pre none).state j = if j ∈ (x :: l).map Prod.fst then .fired else s.state j := by
        intro j
        rw [TimerList.state_setNext, hfs, TimerList.state_setState]
        by_cases hj : j = x.1
        · simp [hj]
        · have hjl : j ∈ (x :: l).map Prod.fst ↔ j ∈ l.map Prod.fst := by
            rw [List.map_cons, List.mem_cons, or_iff_right hj]
          rw [Function.update_of_ne hj]
          simp only [hjl]
      have hn : (u.setNext pre none).next = Function.update s.next pre none := by
        rw [TimerList.next_setNext, hfn, TimerList.next_setState]
      have htm : (u.setNext pre none).time = s.time := by
        rw [TimerList.time_setNext, hft, TimerList.time_setState]
      have hfree : u.free = s.free := by rw [hfr]; rfl
      have htaken : u.taken = s.taken := by rw [hfr]; rfl
      have hactive : u.active = s.active := by rw [hfr]; rfl
      have hnow : u.now = s.now := by rw [hfr]; rfl
      refine .inr ⟨x, l ++ m, l, t, m, ?_⟩
      cases m with
      | nil =>
        let v := { u.setNext pre none with
          active := none
          fired := u.active }
        refine ⟨halTimerStop v, rfl, by omega, hr, ?_, fun hm => absurd rfl hm, hnow, hs⟩
        exact Holds.expire (l := x :: l) (m := []) h hlast hst hn hfree htaken hactive rfl (by simp [mapHead])
          (by simp [mapHead])
      | cons y m =>
        let v := { u.setNext pre none with
          active := some y.1
          fired := u.active }
        have hv : ∀ z ∈ y :: m, v.time z.1 = z.2 := fun z hz => by
          show (u.setNext pre none).time z.1 = z.2
          rw [htm, h.time z (by simp at hz ⊢; tauto)]
        have hnd : ((y :: m).map Prod.fst).Nodup := by
          have := hc.nodup
          rw [← List.cons_append, List.map_append] at this
          exact (List.nodup_append.1 this).2.1
        obtain ⟨hvn, hvs, hvf⟩ := mapTime_frame (· - t) (some y.1) v
        have hvt := (mapTime_time hv hnd (· - t)).1
        refine ⟨halTimerStart ((mapTime (· - t) (some y.1) v).time y.1) (mapTime (· - t) (some y.1) v), rfl, by omega,
          hr, ?_, fun _ => ?_, ?_, hs⟩
        · refine Holds.expire (l := x :: l) (m := y :: m) h hlast (fun j => ?_) (hvn.trans hn) ?_ ?_ ?_ ?_ hvt
            fun z hz => ?_
          · rw [← hst j]
            exact congrFun hvs j
          · show (mapTime (· - t) (some y.1) v).free = s.free
            rw [hvf]
            exact hfree
          · show (mapTime (· - t) (some y.1) v).taken = s.taken
            rw [hvf]
            exact htaken
          · show (mapTime (· - t) (some y.1) v).fired = s.active
            rw [hvf]
            exact hactive
          · show (mapTime (· - t) (some y.1) v).active = some y.1
            rw [hvf]
          · rw [← hvt z (List.mem_of_mem_head? hz)]
            cases hz
            rfl
        · show (mapTime (· - t) (some y.1) v).now = s.now
          rw [hvf]
          exact hnow
        · show (mapTime (· - t) (some y.1) v).now = s.now
          rw [hvf]
          exact hnow

/-! ## The free list -/

/-- A timer that is in no list may get another state, and point anywhere. -/
theorem Holds.unlisted (h : Holds s F q R) {i : Fin N} (hi : i ∈ s.taken ∨ s.state i = .alloc) {st : State}
    (hst : st ≠ .active ∧ st ≠ .fired) (p : Option (Fin N)) :
    i ∉ F ∧ Chain (Function.update s.next i p) s.active (q.map Prod.fst) ∧
    Chain (Function.update s.next i p) s.fired R ∧
    (∀ j, j ∈ q.map Prod.fst ↔ Function.update s.state i st j = .active) ∧
    ∀ j, j ∈ R ↔ Function.update s.state i st j = .fired := by
  have hstate : s.state i = .free ∨ s.state i = .alloc := hi.imp_left (h.taken i)
  have hF : i ∉ F := fun hm => by
    obtain ⟨hfree, htaken⟩ := (h.mem_free i).1 hm
    rw [hi.resolve_left htaken] at hfree
    cases hfree
  have hq : i ∉ q.map Prod.fst := fun hm => by
    rw [(h.mem_active i).1 hm] at hstate
    simp at hstate
  have hR : i ∉ R := fun hm => by
    rw [(h.mem_fired i).1 hm] at hstate
    simp at hstate
  refine ⟨hF, h.active.update_of_notMem hq, h.fired.update_of_notMem hR, fun j => ?_, fun j => ?_⟩
  · by_cases hj : j = i
    · subst hj
      rw [Function.update_self]
      exact iff_of_false hq hst.1
    · rw [Function.update_of_ne hj, h.mem_active]
  · by_cases hj : j = i
    · subst hj
      rw [Function.update_self]
      exact iff_of_false hR hst.2
    · rw [Function.update_of_ne hj, h.mem_fired]

theorem hwtimerAlloc_holds (h : Holds s F q R) : ∃ F', Requeued s (hwtimerAlloc s) F' R (s.start_time, q) := by
  cases F with
  | nil =>
    have hnone : s.free = none := h.free
    refine ⟨[], ?_⟩
    rw [hwtimerAlloc, hnone]
    exact ⟨h, rfl, rfl, rfl⟩
  | cons i F =>
    have hc := h.free
    have hi := (h.mem_free i).1 (by simp)
    have hnd := List.nodup_cons.1 hc.nodup
    refine ⟨F, ?_⟩
    rw [hwtimerAlloc, hc.1]
    refine ⟨⟨hc.2, h.active, h.fired, h.time, fun j => ?_, h.mem_active, h.mem_fired, fun j hj => ?_,
      List.nodup_cons.2 ⟨hi.2, h.taken_nodup⟩, h.load, h.bound⟩, rfl, rfl, rfl⟩
    · have := h.mem_free j
      by_cases hj : j = i
      · subst hj
        simp [hnd.1]
      · simp only [List.mem_cons, hj, false_or] at this ⊢
        exact this
    · rcases List.mem_cons.1 hj with rfl | hj
      · exact hi.1
      · exact h.taken j hj

theorem hwtimerAllocRest_holds (h : Holds s F q R) {i : Fin N} (hi : i ∈ s.taken) {callback : Option Nat} {param : Nat}
    (hs : hwtimerAllocRest i callback param s = some s') : Requeued s s' F R (s.start_time, q) := by
  have hfree := h.taken i hi
  rw [hwtimerAllocRest, if_pos hfree] at hs
  cases hs
  let u := ((s.setState i .alloc).setCallback i callback param).setNext i none
  have hn : u.next = Function.update s.next i none := by simp [u]
  have hst : u.state = Function.update s.state i .alloc := by simp [u]
  have htm : u.time = s.time := by simp [u]
  obtain ⟨hF, hca, hcf, hma, hmf⟩ := h.unlisted (.inl hi) (⟨by simp, by simp⟩ : State.alloc ≠ .active ∧ State.alloc ≠ .fired) none
  rw [← hn] at hca hcf
  rw [← hst] at hma hmf
  refine ⟨⟨?_, hca, hcf, ?_, fun j => ?_, hma, hmf, fun j hj => ?_, h.taken_nodup.erase i, h.load, h.bound⟩,
    rfl, rfl, rfl⟩
  · show Chain u.next s.free F
    rw [hn]
    exact h.free.update_of_notMem hF
  · show ∀ x ∈ q, u.time x.1 = x.2
    rw [htm]
    exact h.time
  · show j ∈ F ↔ u.state j = .free ∧ j ∉ s.taken.erase i
    rw [hst]
    by_cases hj : j = i
    · subst hj
      simp [hF]
    · rw [Function.update_of_ne hj, List.mem_erase_of_ne hj, h.mem_free]
  · show u.state j = .free
    rw [hst, Function.update_of_ne (h.taken_nodup.mem_erase_iff.1 hj).1]
    exact h.taken j (List.mem_of_mem_erase hj)

theorem hwtimerFree_holds (h : Holds s F q R) (id : Option (Fin N)) :
    ∃ F', Requeued s (hwtimerFree id s).2 F' R (s.start_time, q) := by
  cases id with
  | none => exact ⟨F, h, rfl, rfl, rfl⟩
  | some i =>
    rw [hwtimerFree]
    split
    · exact ⟨F, h, rfl, rfl, rfl⟩
    · next hi =>
      have hi : s.state i = .alloc := not_not.1 hi
      have htaken : ∀ j ∈ s.taken, j ≠ i := by
        rintro j hj rfl
        have := h.taken j hj
        rw [hi] at this
        cases this
      let u := (s.setState i .free).setNext i s.free
      have hn : u.next = Function.update s.next i s.free := by simp [u]
      have hst : u.state = Function.update s.state i .free := by simp [u]
      have htm : u.time = s.time := by simp [u]
      obtain ⟨hF, hca, hcf, hma, hmf⟩ := h.unlisted (.inr hi) (⟨by simp, by simp⟩ : State.free ≠ .active ∧ State.free ≠ .fired) s.free
      rw [← hn] at hca hcf
      rw [← hst] at hma hmf
      refine ⟨i :: F, ⟨?_, hca, hcf, ?_, fun j => ?_, hma, hmf, fun j hj => ?_, h.taken_nodup, h.load, h.bound⟩,
        rfl, rfl, rfl⟩
      · show Chain u.next (some i) (i :: F)
        rw [hn]
        exact h.free.push hF
      · show ∀ x ∈ q, u.time x.1 = x.2
        rw [htm]
        exact h.time
      · show j ∈ i :: F ↔ u.state j = .free ∧ j ∉ s.taken
        rw [hst, List.mem_cons]
        by_cases hj : j = i
        · subst hj
          simpa using fun hm => htaken j hm rfl
        · rw [Function.update_of_ne hj, h.mem_free, or_iff_right hj]
      · show u.state j = .free
        rw [hst, Function.update_of_ne (htaken j hj)]
        exact h.taken j hj

/-! ## Runs -/

theorem hwtimerUpdate_holds (h : Holds s F q R) (id : Option (Fin N)) (callback : Option Nat) (param : Nat) :
    Requeued s (hwtimerUpdate id callback param s).2 F R (s.start_time, q) := by
  cases id with
  | none => exact ⟨h, rfl, rfl, rfl⟩
  | some i =>
    rw [hwtimerUpdate]
    split
    · next hi =>
      refine ⟨h.mark hi hi ?_ (s.next_setCallback i _ _) (s.time_setCallback i _ _) rfl, rfl, rfl, rfl⟩
      rw [Function.update_eq_self]
      exact s.state_setCallback i _ _
    · exact ⟨h, rfl, rfl, rfl⟩

theorem handlerReturn_spec (h : Holds s F q R) (hs : handlerReturn s = some s') :
    ∃ R', Requeued { s with handling := s'.handling } s' F R' (s.start_time, q) ∧ (∀ j ∈ R', j ∈ R) ∧
      ((s'.handling = none ∧ R' = []) ∨ ∃ i ∈ R, s'.handling = some i) := by
  rw [handlerReturn] at hs
  obtain ⟨last, -, hs⟩ := Option.bind_eq_some_iff.1 hs
  have hlen := length_le_of_chain h.fired
  split at hs
  · next hst =>
    have hmark : Holds (s.setState last .alloc) F q R :=
      h.mark (.inr hst) (.inl rfl) (s.state_setState last _) (s.next_setState last _) (s.time_setState last _) rfl
    obtain ⟨u, R', hu, hq, hR, hend⟩ := serveFired_spec hmark hlen
    obtain rfl : u = s' := Option.some.inj (hu.symm.trans hs)
    exact ⟨R', ⟨hq.holds, hq.base, hq.now, rfl⟩, hR, hend⟩
  · obtain ⟨u, R', hu, hq, hR, hend⟩ := serveFired_spec h hlen
    obtain rfl : u = s' := Option.some.inj (hu.symm.trans hs)
    exact ⟨R', hq, hR, hend⟩

/-- A start changes nothing, or starts a timer. -/
theorem step_start (h : Holds s F q R) {id : Option (Fin N)} {update : Option (Option Nat × Nat)} {ticks : UInt32}
    {late : Bool} (hs : step (.start id update ticks late) s = some s') :
    ((∀ i, id = some i → s.state i ≠ .alloc ∧ s.state i ≠ .callback) ∧ s' = s) ∨
    ∃ i, id = some i ∧ (s.state i = .alloc ∨ s.state i = .callback) ∧ Requeued s s' F R
      (startQueue i (max ticks.toNat loadDelta) (halTimerGet late s) s.now s.start_time q) := by
  rw [step] at hs
  split at hs
  · obtain ⟨⟨r, u⟩, h₁, rfl⟩ := Option.map_eq_some_iff.1 hs
    cases id with
    | none =>
      cases h₁
      exact .inl ⟨by simp, rfl⟩
    | some i =>
      rcases hwtimerStart_spec h h₁ with ⟨ha, hc, heq⟩ | ⟨hi, hq⟩
      · refine .inl ⟨fun j hj => ?_, heq⟩
        cases hj
        exact ⟨ha, hc⟩
      · exact .inr ⟨i, rfl, hi, hq⟩
  · cases hs

/-- A stop changes nothing, or stops a fired timer, or an active one. -/
theorem step_stop (h : Holds s F q R) {id : Option (Fin N)} {late : Bool} (hs : step (.stop id late) s = some s') :
    ((∀ i, id = some i → s.state i ≠ .active ∧ s.state i ≠ .fired) ∧ s' = s) ∨
    (∃ i, id = some i ∧ s.state i = .fired ∧
      ∃ R', (∀ j, j ∈ R' ↔ j ≠ i ∧ j ∈ R) ∧ Requeued s s' F R' (s.start_time, q)) ∨
    ∃ i d p l, id = some i ∧ s.state i = .active ∧ q = p ++ (i, d) :: l ∧ Requeued s s' F R
      (stopQueue d (halTimerGet late s) (halTimerGetElapsedTime s) s.now s.start_time p l) := by
  rw [step] at hs
  split at hs
  · obtain ⟨⟨r, u⟩, h₁, rfl⟩ := Option.map_eq_some_iff.1 hs
    cases id with
    | none =>
      cases h₁
      exact .inl ⟨by simp, rfl⟩
    | some i =>
      rcases hwtimerStop_spec h h₁ with ⟨ha, hc, heq⟩ | ⟨hi, hq⟩ | ⟨hi, d, p, l, hq⟩
      · refine .inl ⟨fun j hj => ?_, heq⟩
        cases hj
        exact ⟨ha, hc⟩
      · exact .inr (.inl ⟨i, rfl, hi, hq⟩)
      · exact .inr (.inr ⟨i, d, p, l, rfl, hi, hq⟩)
  · cases hs

/-- An interrupt changes nothing, or `x` and the timers `l` expire. -/
theorem step_interrupt (h : Holds s F q R) (hidle : s.handling = none → R = [])
    (hs : step .interrupt s = some s') :
    s' = s ∨ ∃ x q₀ l t m R', q = x :: q₀ ∧ x.2 ≤ halTimerGetElapsedTime s + loadDelta ∧
      due (halTimerGetElapsedTime s - x.2) q₀ = (l, t, m) ∧ Holds s' F (mapHead (· - t) m) R' ∧
      (m ≠ [] → s'.start_time = s.now) ∧ s'.now = s.now ∧ (∀ j ∈ R', j ∈ (x :: l).map Prod.fst) ∧
      ((s'.handling = none ∧ R' = []) ∨ ∃ i ∈ (x :: l).map Prod.fst, s'.handling = some i) := by
  rw [step] at hs
  split at hs
  · next hh =>
    obtain rfl := hidle hh
    rcases hwtimerHandler_spec h hs with heq | ⟨x, q₀, l, t, m, s₁, hq, hle, hdue, h₁, hbase, hnow, hserve⟩
    · exact .inl heq
    · obtain ⟨u, R', hu, hr, hR, hend⟩ := serveFired_spec h₁ (length_le_of_chain h₁.fired)
      obtain rfl : u = s' := Option.some.inj (hu.symm.trans hserve)
      exact .inr ⟨x, q₀, l, t, m, R', hq, hle, hdue, hr.holds, fun hm => hr.base.trans (hbase hm), hr.now.trans hnow,
        hR, hend⟩
  · cases hs

/-- The invariant of the runs. -/
def Listed (s : TimerList N) : Prop := ∃ F q R, Holds s F q R ∧ (s.handling = none → R = [])

theorem listed_step {e : Event N} (h : Listed s) (hs : step e s = some s') : Listed s' := by
  obtain ⟨F, q, R, h, hidle⟩ := h
  have keep : ∀ {F' R' : List (Fin N)} {r : Nat × List (Fin N × Nat)}, (R = [] → R' = []) → Requeued s s' F' R' r →
      Listed s' := fun {F' R' r} hR hq =>
    ⟨F', r.2, R', hq.holds, fun hh => hR (hidle (hq.handling ▸ hh))⟩
  cases e with
  | pass ticks =>
    cases hs
    exact ⟨F, q, R, ⟨h.free, h.active, h.fired, h.time, h.mem_free, h.mem_active, h.mem_fired, h.taken, h.taken_nodup,
      h.load, h.bound⟩, hidle⟩
  | alloc =>
    cases hs
    obtain ⟨F', hq⟩ := hwtimerAlloc_holds h
    exact keep id hq
  | allocRest i callback param =>
    rw [step] at hs
    split at hs
    · next hi => exact keep id (hwtimerAllocRest_holds h hi hs)
    · cases hs
  | free id' =>
    rw [step] at hs
    split at hs
    · cases hs
      obtain ⟨F', hq⟩ := hwtimerFree_holds h id'
      exact keep id hq
    · cases hs
  | start id' update ticks late =>
    rcases step_start h hs with ⟨-, rfl⟩ | ⟨i, -, -, hq⟩
    · exact ⟨F, q, R, h, hidle⟩
    · exact keep id hq
  | update id' callback param =>
    rw [step] at hs
    split at hs
    · cases hs
      exact keep id (hwtimerUpdate_holds h id' callback param)
    · cases hs
  | stop id' late =>
    rcases step_stop h hs with ⟨-, rfl⟩ | ⟨i, -, -, R', hR, hq⟩ | ⟨i, d, p, l, -, -, -, hq⟩
    · exact ⟨F, q, R, h, hidle⟩
    · refine keep (fun hnil => List.eq_nil_iff_forall_not_mem.2 fun j hj => ?_) hq
      simpa [hnil] using (hR j).1 hj
    · exact keep id hq
  | interrupt =>
    rcases step_interrupt h hidle hs with rfl | ⟨x, q₀, l, t, m, R', -, -, -, h', -, -, -, hend⟩
    · exact ⟨F, q, R, h, hidle⟩
    · refine ⟨F, _, R', h', fun hh => ?_⟩
      rcases hend with ⟨-, hR⟩ | ⟨i, -, hi⟩
      · exact hR
      · rw [hh] at hi
        cases hi
  | callbackReturn =>
    obtain ⟨R', hq, -, hend⟩ := handlerReturn_spec h hs
    refine ⟨F, q, R', hq.holds, fun hh => ?_⟩
    rcases hend with ⟨-, hR⟩ | ⟨i, -, hi⟩
    · exact hR
    · rw [hh] at hi
      cases hi

theorem init_chain (now : Nat) (k : Nat) (hk : k ≤ N) : Chain (hwtimerInit now : TimerList N).next
    (if h : k < N then some ⟨k, h⟩ else none) ((List.finRange N).drop k) := by
  induction hd : N - k generalizing k with
  | zero =>
    have hkN : ¬ k < N := by omega
    rw [dif_neg hkN, List.drop_eq_nil_of_le (by simp; omega)]
    rfl
  | succ d ih =>
    have hkN : k < N := by omega
    rw [dif_pos hkN, List.drop_eq_getElem_cons (by simpa using hkN), List.getElem_finRange]
    exact ⟨rfl, ih (k + 1) hkN (by omega)⟩

theorem listed_init (now : Nat) : Listed (hwtimerInit now : TimerList N) := by
  refine ⟨List.finRange N, [], [], ⟨?_, rfl, rfl, by simp, fun i => ?_, fun i => ?_, fun i => ?_, ?_, List.nodup_nil,
    by simp, by simp⟩, fun _ => rfl⟩
  · have := init_chain (N := N) now 0 (Nat.zero_le _)
    rwa [List.drop_zero] at this
  · exact iff_of_true (List.mem_finRange i) ⟨rfl, by simp [hwtimerInit]⟩
  · exact iff_of_false (by simp) (by simp [hwtimerInit, TimerList.state])
  · exact iff_of_false (by simp) (by simp [hwtimerInit, TimerList.state])
  · simp [hwtimerInit]

theorem Reachable.listed (h : Reachable s) : Listed s := by
  obtain ⟨evs, h⟩ := h
  refine h.inv Listed ?_ fun e s s' hs _ hst => listed_step hs hst
  rintro s ⟨now, rfl⟩
  exact listed_init now

/-- In every run each timer is in the list of its state, but for those that
`hwtimer_alloc` has taken from the free list and has not marked yet. -/
theorem lists_of_states (h : Reachable s) : ∃ F A R, Chain s.next s.free F ∧ Chain s.next s.active A ∧
    Chain s.next s.fired R ∧ (F ++ A ++ R).Nodup ∧ ∀ i, (i ∈ F ↔ s.state i = .free ∧ i ∉ s.taken) ∧
      (i ∈ A ↔ s.state i = .active) ∧ (i ∈ R ↔ s.state i = .fired) := by
  obtain ⟨F, q, R, h, -⟩ := h.listed
  refine ⟨F, q.map Prod.fst, R, h.free, h.active, h.fired, ?_, fun i => ⟨h.mem_free i, h.mem_active i, h.mem_fired i⟩⟩
  have hFA : (F ++ q.map Prod.fst).Nodup := by
    refine List.nodup_append.2 ⟨h.free.nodup, h.active.nodup, ?_⟩
    rintro i hi j hj rfl
    have hfree := ((h.mem_free i).1 hi).1
    rw [(h.mem_active i).1 hj] at hfree
    cases hfree
  refine List.nodup_append.2 ⟨hFA, h.fired.nodup, ?_⟩
  rintro i hi j hj rfl
  have hfired := (h.mem_fired i).1 hj
  rcases List.mem_append.1 hi with hi | hi
  · rw [((h.mem_free i).1 hi).1] at hfired
    cases hfired
  · rw [(h.mem_active i).1 hi] at hfired
    cases hfired

/-- In a callback, with another timer fired and an allocation under way. -/
theorem lists_of_states_in_callback : ∃ s : TimerList 3, Reachable s ∧
    (s.handling = some 0 ∧ s.fired = some 1 ∧ s.taken = [2]) ∧
    ∃ F A R, Chain s.next s.free F ∧ Chain s.next s.active A ∧ Chain s.next s.fired R ∧ (F ++ A ++ R).Nodup ∧
      ∀ i, (i ∈ F ↔ s.state i = .free ∧ i ∉ s.taken) ∧ (i ∈ A ↔ s.state i = .active) ∧
        (i ∈ R ↔ s.state i = .fired) := by
  obtain ⟨s, hrun, hgood⟩ := Runs.exists_run_of_check step (fun _ _ => True)
    (fun s : TimerList 3 => ∃ now, s = hwtimerInit now) (some (hwtimerInit 0))
    [.alloc, .allocRest 0 (some 7) 0, .alloc, .allocRest 1 (some 8) 0, .alloc, .start (some 0) none 5 true,
      .start (some 1) none 5 true, .pass 10, .interrupt]
    (fun s => s.handling = some 0 ∧ s.fired = some 1 ∧ s.taken = [2]) (fun s hs => ⟨0, (Option.some.inj hs).symm⟩)
    (by decide +kernel)
  exact ⟨s, ⟨_, hrun⟩, of_decide_eq_true hgood, lists_of_states ⟨_, hrun⟩⟩

/-- A timer whose state says free, in no list: `hwtimer_alloc` has left its
critical section. -/
theorem free_in_no_list : ¬ ∀ (N : Nat) (s : TimerList N), Reachable s →
    ∀ F, Chain s.next s.free F → ∀ i, s.state i = .free → i ∈ F := by
  intro h
  have hr : Reachable (hwtimerAlloc (hwtimerInit 0) : TimerList 1) := ⟨_, .snoc (e := .alloc) (.nil ⟨0, rfl⟩) trivial rfl⟩
  have := h 1 _ hr [] rfl 0 rfl
  simp at this

end HwTimer
