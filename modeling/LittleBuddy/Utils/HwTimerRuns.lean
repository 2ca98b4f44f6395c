import LittleBuddy.Utils.HwTimerDeadlines
/-!
# No callback before its time

A run that also notes, for each timer, until when it was asked to wait, and
each call of a callback. Where every step is `OnTime`, no queue entry comes
before the time that was asked for, and so no callback does.
-/
open LinkedPool DeltaQueue

namespace HwTimer

variable {N : Nat} {s s' : TimerList N} {F R : List (Fin N)} {q : List (Fin N × Nat)}

/-- The list, until when each timer was asked to wait, and the callbacks that
were called: the timer, until when it was asked to wait, the time of the call. -/
structure Traced (N : Nat) where
  list : TimerList N
  asked : Fin N → Nat
  calls : List (Fin N × Nat × Nat)

/-- A start asks for a time. -/
def askedBy (e : Event N) (t : Traced N) : Fin N → Nat :=
  match e with
  | .start (some i) _ ticks _ =>
    if t.list.state i = .alloc ∨ t.list.state i = .callback then
      Function.update t.asked i (t.list.now + ticks.toNat)
    else t.asked
  | _ => t.asked

/-- The callback that the handler calls in a step to `s`. -/
def calledBy (e : Event N) (s : TimerList N) : Option (Fin N) :=
  match e with
  | .interrupt | .callbackReturn => s.handling
  | _ => none

def traced (e : Event N) (t : Traced N) : Option (Traced N) :=
  (step e t.list).map fun s => {
    list := s
    asked := askedBy e t
    calls := t.calls ++ (calledBy e s).toList.map fun i => (i, t.asked i, s.now) }

/-- The first state of a run. -/
def TracedInit (t : Traced N) : Prop := (∃ now, t.list = hwtimerInit now) ∧ t.calls = []

/-- When no deadline comes to be before the time that was asked for: a count
that is read is on the safe side of what remains of the first timer, no sum
overflows, and the interrupt does not come before its time. -/
def OnTime : Event N → TimerList N → Prop
  | .start (some i) _ ticks late, s => ∀ head, s.active = some head → (s.state i = .alloc ∨ s.state i = .callback) →
      if halTimerGet late s > max ticks.toNat loadDelta then s.start_time + s.time head ≤ s.now + halTimerGet late s
      else s.now + halTimerGet late s ≤ s.start_time + s.time head
  | .stop (some i) late, s => ∀ next, s.next i = some next → s.state i = .active →
      if s.active = some i then
        if halTimerGet late s = 0 then s.start_time + s.time i ≤ s.now
        else s.start_time + s.time i ≤ s.now + halTimerGet late s ∧ s.time next + halTimerGet late s < 2 ^ 32
      else s.time next + s.time i < 2 ^ 32
  | .interrupt, s => ∀ head, s.active = some head → s.time head ≤ halTimerGetElapsedTime s + loadDelta →
      s.start_time + s.time head ≤ s.now
  | _, _ => True

instance (e : Event N) (s : TimerList N) : Decidable (OnTime e s) :=
  match e with
  | .start (some i) _ ticks late => inferInstanceAs (Decidable (∀ head, s.active = some head →
      (s.state i = .alloc ∨ s.state i = .callback) →
      if halTimerGet late s > max ticks.toNat loadDelta then s.start_time + s.time head ≤ s.now + halTimerGet late s
      else s.now + halTimerGet late s ≤ s.start_time + s.time head))
  | .stop (some i) late => inferInstanceAs (Decidable (∀ next, s.next i = some next → s.state i = .active →
      if s.active = some i then
        if halTimerGet late s = 0 then s.start_time + s.time i ≤ s.now
        else s.start_time + s.time i ≤ s.now + halTimerGet late s ∧ s.time next + halTimerGet late s < 2 ^ 32
      else s.time next + s.time i < 2 ^ 32))
  | .interrupt => inferInstanceAs (Decidable (∀ head, s.active = some head →
      s.time head ≤ halTimerGetElapsedTime s + loadDelta → s.start_time + s.time head ≤ s.now))
  | .start none _ _ _ | .stop none _ | .pass _ | .alloc | .allocRest _ _ _ | .free _ | .update _ _ _
  | .callbackReturn => isTrue trivial

/-! ## Calls and the times that were asked for -/

theorem startQueue_meets {asked : Fin N → Nat} {i : Fin N} {ticks count now base time : Nat} (hm : Meets asked base q)
    (hi : i ∉ q.map Prod.fst) (ht : time ≤ now + ticks)
    (hcount : ∀ x ∈ q.head?, if count > ticks then base + x.2 ≤ now + count else now + count ≤ base + x.2) :
    Meets (Function.update asked i time) (startQueue i ticks count now base q).1
      (startQueue i ticks count now base q).2 := by
  have hnew : ∀ t, time ≤ t → Function.update asked i time i ≤ t := fun t h => by rwa [Function.update_self]
  have hold := hm.update hi time
  cases q with
  | nil => simpa [startQueue] using hnew _ ht
  | cons x q =>
    have hx := hcount x rfl
    rw [meets_cons] at hold
    rw [startQueue]
    split
    · next hgt =>
      rw [if_pos hgt] at hx
      refine meets_cons.2 ⟨hnew _ ht, meets_cons.2 ⟨?_, hold.2.mono ?_⟩⟩
      · show Function.update asked i time x.1 ≤ now + ticks + (count - ticks)
        omega
      · show base + x.2 ≤ now + ticks + (count - ticks)
        omega
    · next hgt =>
      rw [if_neg hgt] at hx
      have hins := absolute_insert i (base + x.2) (ticks - count) q
      have hq := (place_spec (ticks - count) q).1
      generalize place (ticks - count) q = r at hins hq ⊢
      refine meets_cons.2 ⟨hold.1, fun y hy => ?_⟩
      rw [hins] at hy
      have hparts := hold.2
      rw [hq, meets_append] at hparts
      rcases List.mem_append.1 hy with hy | hy
      · exact hparts.1 y hy
      rcases List.mem_cons.1 hy with rfl | hy
      · exact hnew _ (by omega)
      · exact hparts.2 y hy

theorem stopQueue_meets {asked : Fin N → Nat} {i : Fin N} {d count elapsed now base : Nat} {p l : List (Fin N × Nat)}
    (hm : Meets asked base (p ++ (i, d) :: l)) (he : elapsed ≤ now - base)
    (hcount : ∀ y ∈ l.head?, if p = [] then
        if count = 0 then base + d ≤ now else base + d ≤ now + count ∧ y.2 + count < 2 ^ 32
      else y.2 + d < 2 ^ 32) :
    Meets asked (stopQueue d count elapsed now base p l).1 (stopQueue d count elapsed now base p l).2 := by
  rw [meets_append, meets_cons] at hm
  obtain ⟨hp, -, hl⟩ := hm
  cases l with
  | nil =>
    cases p with
    | nil => exact meets_nil
    | cons x p => simpa [stopQueue, mapHead] using hp
  | cons y l =>
    have hy := hcount y rfl
    rw [meets_cons] at hl
    cases p with
    | nil =>
      rw [if_pos rfl] at hy
      simp only [total, Nat.add_zero] at hl
      rw [stopQueue]
      split
      · next hc =>
        rw [if_pos hc] at hy
        exact (meets_cons.2 hl).catchUp (by omega)
      · next hc =>
        rw [if_neg hc] at hy
        have hadd : add32 y.2 count = y.2 + count := Nat.mod_eq_of_lt hy.2
        refine meets_cons.2 ⟨?_, hl.2.mono ?_⟩
        · show asked y.1 ≤ now + add32 y.2 count
          omega
        · show base + d + y.2 ≤ now + add32 y.2 count
          omega
    | cons x p =>
      rw [if_neg (by simp)] at hy
      have hadd : add32 y.2 d = y.2 + d := Nat.mod_eq_of_lt hy
      rw [stopQueue, ← List.cons_append]
      refine meets_append.2 ⟨hp, meets_cons.2 ⟨?_, hl.2.mono ?_⟩⟩
      · show asked y.1 ≤ base + total (x :: p) + add32 y.2 d
        simp only at hl
        omega
      · show base + total (x :: p) + d + y.2 ≤ base + total (x :: p) + add32 y.2 d
        omega

/-- The invariant of the runs whose steps are on time. -/
structure Kept (t : Traced N) (F : List (Fin N)) (q : List (Fin N × Nat)) (R : List (Fin N)) : Prop where
  holds : Holds t.list F q R
  idle : t.list.handling = none → R = []
  active : Meets t.asked t.list.start_time q
  fired : ∀ i ∈ R, t.asked i ≤ t.list.now
  calls : ∀ c ∈ t.calls, c.2.1 ≤ c.2.2

/-- A call that calls no callback. -/
theorem Kept.call {t : Traced N} (h : Kept t F q R) {F' R' : List (Fin N)} {r : Nat × List (Fin N × Nat)}
    {asked : Fin N → Nat} (hr : Requeued t.list s' F' R' r) (hR : ∀ j ∈ R', j ∈ R)
    (hm : Meets asked r.1 r.2) (hasked : ∀ j ∈ R, asked j = t.asked j) : Kept ⟨s', asked, t.calls⟩ F' r.2 R' where
  holds := hr.holds
  idle hh := by
    have hnil := h.idle (hr.handling ▸ hh)
    exact List.eq_nil_iff_forall_not_mem.2 fun j hj => by simpa [hnil] using hR j hj
  active := by
    show Meets asked s'.start_time r.2
    rw [hr.base]
    exact hm
  fired j hj := by
    show asked j ≤ s'.now
    rw [hasked j (hR j hj), hr.now]
    exact h.fired j (hR j hj)
  calls := h.calls

/-- The callbacks that have been called, were called in time. -/
theorem calls_snoc {t : Traced N} {e : Event N} {now : Nat} (h : ∀ c ∈ t.calls, c.2.1 ≤ c.2.2)
    (hnew : ∀ i, calledBy e s' = some i → t.asked i ≤ now) :
    ∀ c ∈ t.calls ++ (calledBy e s').toList.map (fun i => (i, t.asked i, now)), c.2.1 ≤ c.2.2 := by
  intro c hc
  rcases List.mem_append.1 hc with hc | hc
  · exact h c hc
  · obtain ⟨i, hi, rfl⟩ := List.mem_map.1 hc
    exact hnew i (Option.mem_toList.1 hi)

/-- The handler fires timers in time. -/
theorem due_meets {asked : Fin N → Nat} {base now elapsed r : Nat} {x : Fin N × Nat} {l m : List (Fin N × Nat)}
    (hm : Meets asked base (x :: q)) (hx : base + x.2 ≤ now) (he : elapsed ≤ now - base)
    (hdue : due (elapsed - x.2) q = (l, r, m)) :
    (∀ j ∈ (x :: l).map Prod.fst, asked j ≤ now) ∧ Meets asked now (mapHead (· - r) m) := by
  obtain ⟨hq, hsum, hfirst⟩ := due_spec (elapsed - x.2) q
  rw [hdue] at hq hsum hfirst
  simp only at hq hsum hfirst
  rw [hq, ← List.cons_append, meets_append, total] at hm
  refine ⟨fun j hj => ?_, hm.2.mapHead_sub hfirst (by omega)⟩
  obtain ⟨y, hy, rfl⟩ := List.mem_map.1 hj
  refine Nat.le_trans (hm.1.le_total hy) ?_
  rw [total]
  omega

/-- A step of the handler: it has called the next timer that is due, or it has ended. -/
theorem Kept.handled {t : Traced N} (h : Kept t F q R) {e : Event N} (he : calledBy e s' = s'.handling)
    {q' : List (Fin N × Nat)} {R' dues : List (Fin N)} (hl : Holds s' F q' R') (hm : Meets t.asked s'.start_time q')
    (hdue : ∀ j ∈ dues, t.asked j ≤ s'.now) (hR : ∀ j ∈ R', j ∈ dues)
    (hend : (s'.handling = none ∧ R' = []) ∨ ∃ i ∈ dues, s'.handling = some i) :
    Kept ⟨s', t.asked, t.calls ++ (calledBy e s').toList.map fun i => (i, t.asked i, s'.now)⟩ F q' R' where
  holds := hl
  idle hh := by
    rcases hend with ⟨-, hR⟩ | ⟨i, -, hi⟩
    · exact hR
    · rw [show s'.handling = none from hh] at hi
      cases hi
  active := hm
  fired j hj := hdue j (hR j hj)
  calls := by
    apply calls_snoc h.calls
    intro i hi
    rw [he] at hi
    rcases hend with ⟨hh, -⟩ | ⟨j, hj, hh⟩
    · rw [hh] at hi
      cases hi
    · rw [hh] at hi
      cases hi
      exact hdue i hj

/-- A start of a timer, which is in none of the lists that run. -/
theorem Kept.start {t : Traced N} (h : Kept t F q R) {i : Fin N} {update : Option (Option Nat × Nat)} {ticks : UInt32}
    {late : Bool} (hc : OnTime (.start (some i) update ticks late) t.list)
    (hi : t.list.state i = .alloc ∨ t.list.state i = .callback)
    (hr : Requeued t.list s' F R
      (startQueue i (max ticks.toNat loadDelta) (halTimerGet late t.list) t.list.now t.list.start_time q)) :
    ∃ q', Kept ⟨s', Function.update t.asked i (t.list.now + ticks.toNat), t.calls⟩ F q' R := by
  have hiq : i ∉ q.map Prod.fst := by
    rw [h.holds.mem_active]
    rcases hi with hi | hi <;> simp [hi]
  have hiR : ∀ j ∈ R, j ≠ i := by
    rintro j hj rfl
    have := (h.holds.mem_fired j).1 hj
    rcases hi with hi | hi <;> simp [hi] at this
  refine ⟨_, h.call hr (fun _ hj => hj) ?_ fun j hj => Function.update_of_ne (hiR j hj) _ _⟩
  apply startQueue_meets h.active hiq (by omega)
  intro x hx
  obtain ⟨hact, htime⟩ := h.holds.head hx
  rw [← htime]
  exact hc x.1 hact hi

/-- A stop of a timer that waits. -/
theorem Kept.stop {t : Traced N} {i : Fin N} {d : Nat} {p l : List (Fin N × Nat)} {late : Bool}
    (h : Kept t F (p ++ (i, d) :: l) R) (hc : OnTime (.stop (some i) late) t.list) (hi : t.list.state i = .active)
    (hr : Requeued t.list s' F R (stopQueue d (halTimerGet late t.list) (halTimerGetElapsedTime t.list) t.list.now
      t.list.start_time p l)) : ∃ q', Kept ⟨s', t.asked, t.calls⟩ F q' R := by
  refine ⟨_, h.call hr (fun _ hj => hj) ?_ fun _ _ => rfl⟩
  apply stopQueue_meets h.active (Nat.mod_le _ _)
  intro y hy
  obtain ⟨hnext, hfirst⟩ := h.holds.between
  have htd : t.list.time i = d := h.holds.time (i, d) (by simp)
  have hty : t.list.time y.1 = y.2 := h.holds.time y (by simp [List.mem_of_mem_head? hy])
  rw [List.head?_map, Option.mem_def.1 hy] at hnext
  have := hc y.1 hnext hi
  rw [htd, hty] at this
  simpa only [hfirst] using this

/-- An interrupt fires the timers that are due, and calls the first of them. -/
theorem Kept.interrupt {t : Traced N} (h : Kept t F q R) (hc : OnTime .interrupt t.list)
    (hs : step .interrupt t.list = some s') :
    ∃ q' R', Kept ⟨s', t.asked, t.calls ++ s'.handling.toList.map fun i => (i, t.asked i, s'.now)⟩ F q' R' := by
  rcases step_interrupt h.holds h.idle hs with rfl | ⟨x, q₀, l, r, m, R', rfl, hle, hdue, hq, hbase, hnow, hR, hend⟩
  · have hnone : t.list.handling = none := by
      rw [step] at hs
      split at hs
      · assumption
      · cases hs
    refine ⟨q, R, h.holds, h.idle, h.active, h.fired, ?_⟩
    simpa [hnone] using h.calls
  · obtain ⟨hact, htime⟩ := h.holds.head (q := x :: q₀) rfl
    have hx := hc x.1 hact (by rwa [htime])
    rw [htime] at hx
    obtain ⟨hfired, hm⟩ := due_meets h.active hx (Nat.mod_le _ _) hdue
    refine ⟨_, R', h.handled (e := .interrupt) rfl hq ?_ (by rwa [hnow]) hR hend⟩
    cases m with
    | nil => exact meets_nil
    | cons y m =>
      rw [hbase (by simp)]
      exact hm

theorem kept_step {t t' : Traced N} {e : Event N} (h : ∃ F q R, Kept t F q R) (hc : OnTime e t.list)
    (ht : traced e t = some t') : ∃ F q R, Kept t' F q R := by
  obtain ⟨F, q, R, h⟩ := h
  obtain ⟨s', hs, rfl⟩ := Option.map_eq_some_iff.1 ht
  clear ht
  -- what the calls leave alone
  have hkeep : ∀ {F' R' : List (Fin N)}, (∀ j ∈ R', j ∈ R) → Requeued t.list s' F' R' (t.list.start_time, q) →
      ∃ F q R, Kept ⟨s', t.asked, t.calls ++ []⟩ F q R := fun {F' R'} hR hr => by
    rw [List.append_nil]
    exact ⟨F', q, R', h.call hr hR h.active fun _ _ => rfl⟩
  cases e with
  | pass ticks =>
    cases hs
    refine ⟨F, q, R, ⟨h.holds.free, h.holds.active, h.holds.fired, h.holds.time, h.holds.mem_free, h.holds.mem_active,
      h.holds.mem_fired, h.holds.taken, h.holds.taken_nodup, h.holds.load, h.holds.bound⟩, h.idle, h.active,
      fun i hi => Nat.le_trans (h.fired i hi) (Nat.le_add_right _ _), fun c hcall => ?_⟩
    rcases List.mem_append.1 hcall with hcall | hcall
    · exact h.calls c hcall
    · cases hcall
  | alloc =>
    cases hs
    obtain ⟨F', hr⟩ := hwtimerAlloc_holds h.holds
    exact hkeep (fun _ hj => hj) hr
  | allocRest i callback param =>
    rw [step] at hs
    split at hs
    · next hi => exact hkeep (fun _ hj => hj) (hwtimerAllocRest_holds h.holds hi hs)
    · cases hs
  | free id =>
    rw [step] at hs
    split at hs
    · cases hs
      obtain ⟨F', hr⟩ := hwtimerFree_holds h.holds id
      exact hkeep (fun _ hj => hj) hr
    · cases hs
  | start id update ticks late =>
    rcases step_start h.holds hs with ⟨hno, rfl⟩ | ⟨i, rfl, hi, hr⟩
    · have hasked : askedBy (.start id update ticks late) t = t.asked := by
        cases id with
        | none => rfl
        | some i => exact if_neg (not_or.2 (hno i rfl))
      rw [hasked]
      exact hkeep (fun _ hj => hj) ⟨h.holds, rfl, rfl, rfl⟩
    · have hasked : askedBy (.start (some i) update ticks late) t =
          Function.update t.asked i (t.list.now + ticks.toNat) := if_pos hi
      rw [hasked, show (calledBy (.start (some i) update ticks late) s').toList.map _ = [] from rfl, List.append_nil]
      obtain ⟨q', hk⟩ := h.start hc hi hr
      exact ⟨F, q', R, hk⟩
  | update id callback param =>
    rw [step] at hs
    split at hs
    · cases hs
      exact hkeep (fun _ hj => hj) (hwtimerUpdate_holds h.holds id callback param)
    · cases hs
  | stop id late =>
    rcases step_stop h.holds hs with ⟨-, rfl⟩ | ⟨i, -, -, R', hR, hr⟩ | ⟨i, d, p, l, rfl, hi, rfl, hr⟩
    · exact hkeep (fun _ hj => hj) ⟨h.holds, rfl, rfl, rfl⟩
    · exact hkeep (fun j hj => ((hR j).1 hj).2) hr
    · rw [show (calledBy (.stop (some i) late) s').toList.map _ = [] from rfl, List.append_nil]
      obtain ⟨q', hk⟩ := h.stop hc hi hr
      exact ⟨F, q', R, hk⟩
  | interrupt =>
    obtain ⟨q', R', hk⟩ := h.interrupt hc hs
    exact ⟨F, q', R', hk⟩
  | callbackReturn =>
    obtain ⟨R', hr, hR, hend⟩ := handlerReturn_spec h.holds hs
    have hnow : s'.now = t.list.now := hr.now
    have hbase : s'.start_time = t.list.start_time := hr.base
    refine ⟨F, q, R', h.handled (e := .callbackReturn) rfl hr.holds ?_ ?_ hR hend⟩
    · rw [hbase]
      exact h.active
    · rw [hnow]
      exact h.fired

/-- In every run whose steps are on time, a callback is called when the time
that was asked for has passed, or later. -/
theorem not_early {t : Traced N} {evs : List (Event N)}
    (h : Runs.Run traced (fun e t => OnTime e t.list) TracedInit t evs) : ∀ c ∈ t.calls, c.2.1 ≤ c.2.2 := by
  have hkept : ∃ F q R, Kept t F q R := by
    refine h.inv (fun t => ∃ F q R, Kept t F q R) ?_ fun e t t' hk hc ht => kept_step hk hc ht
    rintro t ⟨⟨now, hinit⟩, hcalls⟩
    obtain ⟨F, q, R, hl, hidle⟩ := listed_init (N := N) now
    obtain rfl : q = [] := List.map_eq_nil_iff.1 (hl.active.unique (chain_nil.2 rfl))
    obtain rfl : R = [] := hidle rfl
    rw [← hinit] at hl
    exact ⟨F, [], [], hl, fun _ => rfl, meets_nil, by simp, by simp [hcalls]⟩
  obtain ⟨F, q, R, hk⟩ := hkept
  exact hk.calls

/-- The state before the first event, where no timer was asked to wait. -/
def firstTraced (N : Nat) : Traced N := ⟨hwtimerInit 0, fun _ => 0, []⟩

/-- Two timers, which are called one after the other. -/
theorem not_early_two : ∃ (t : Traced 2) (evs : List (Event 2)),
    Runs.Run traced (fun e t => OnTime e t.list) TracedInit t evs ∧ t.calls = [(1, 6, 6), (0, 10, 12)] ∧
    ∀ c ∈ t.calls, c.2.1 ≤ c.2.2 := by
  obtain ⟨t, hrun, hgood⟩ := Runs.exists_run_of_check traced (fun e t => OnTime e t.list) TracedInit
    (some (firstTraced 2))
    [.alloc, .allocRest 0 (some 7) 0, .alloc, .allocRest 1 (some 8) 0, .start (some 0) none 10 true, .pass 1,
      .start (some 1) none 5 true, .pass 5, .interrupt, .callbackReturn, .pass 6, .interrupt]
    (fun t => t.calls = [(1, 6, 6), (0, 10, 12)])
    (fun t ht => by rw [← Option.some.inj ht]; exact ⟨⟨0, rfl⟩, rfl⟩) (by decide +kernel)
  exact ⟨t, _, hrun, of_decide_eq_true hgood, not_early hrun⟩

/-- Where the first timer has expired and is not served yet, another one is
called at once that was to wait for 50 ticks. -/
theorem called_early : ¬ ∀ (N : Nat) (t : Traced N) (evs : List (Event N)),
    Runs.Run traced (fun _ _ => True) TracedInit t evs → ∀ c ∈ t.calls, c.2.1 ≤ c.2.2 := by
  intro h
  obtain ⟨t, hrun, hgood⟩ := Runs.exists_run_of_check traced (fun _ _ => True) TracedInit (some (firstTraced 2))
    [.alloc, .allocRest 0 none 0, .alloc, .allocRest 1 (some 8) 0, .start (some 0) none 10 true, .pass 110,
      .start (some 1) none 50 true, .interrupt]
    (fun t => t.calls = [(1, 160, 110)])
    (fun t ht => by rw [← Option.some.inj ht]; exact ⟨⟨0, rfl⟩, rfl⟩) (by decide +kernel)
  have hcalls : t.calls = [(1, 160, 110)] := of_decide_eq_true hgood
  have := h 2 t _ hrun (1, 160, 110) (by rw [hcalls]; simp)
  simp at this

end HwTimer
