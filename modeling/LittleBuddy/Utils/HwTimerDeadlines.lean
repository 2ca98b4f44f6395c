import LittleBuddy.Utils.HwTimerLists
/-!
# Deadlines of other timers

The deadline of an active timer is the time at which the timer of the HAL was
started, and the differences up to its own. A call for one timer leaves the
deadlines of the others exactly when `Steady` holds before it: the count that
it reads is the time that remains of the first timer, where it works with it.
-/
open LinkedPool DeltaQueue

namespace HwTimer

variable {N : Nat} {s s' : TimerList N} {F R : List (Fin N)} {q : List (Fin N × Nat)}

/-- The active timers with their deadlines, in the order of the list. -/
def deadlines (s : TimerList N) : List (Fin N × Nat) :=
  absolute s.start_time (((collect s.next N s.active).getD []).map fun i => (i, s.time i))

/-- Without timer `i`. -/
def others (i : Fin N) (l : List (Fin N × Nat)) : List (Fin N × Nat) := l.filter fun x => x.1 ≠ i

/-- The timer that is started, updated or stopped. -/
def Event.timer : Event N → Option (Fin N)
  | .start id _ _ _ => id
  | .update id _ _ => id
  | .stop id _ => id
  | _ => none

/-- When a call leaves the deadlines of the other timers as they are. -/
def Steady : Event N → TimerList N → Prop
  | .start (some i) _ ticks late, s => ∀ head, s.active = some head → (s.state i = .alloc ∨ s.state i = .callback) →
      halTimerGet late s > max ticks.toNat loadDelta → s.now + halTimerGet late s = s.start_time + s.time head
  | .stop (some i) late, s => ∀ next, s.next i = some next → s.state i = .active →
      if s.active = some i then
        if halTimerGet late s = 0 then
          s.start_time + s.time i ≤ s.now ∧ s.now - s.start_time < 2 ^ 32 ∧
            s.now ≤ s.start_time + s.time i + s.time next
        else s.now + halTimerGet late s = s.start_time + s.time i ∧ s.time next + halTimerGet late s < 2 ^ 32
      else s.time next + s.time i < 2 ^ 32
  | _, _ => True

instance (e : Event N) (s : TimerList N) : Decidable (Steady e s) :=
  match e with
  | .start (some i) _ ticks late => inferInstanceAs (Decidable (∀ head, s.active = some head →
      (s.state i = .alloc ∨ s.state i = .callback) → halTimerGet late s > max ticks.toNat loadDelta →
      s.now + halTimerGet late s = s.start_time + s.time head))
  | .stop (some i) late => inferInstanceAs (Decidable (∀ next, s.next i = some next → s.state i = .active →
      if s.active = some i then
        if halTimerGet late s = 0 then
          s.start_time + s.time i ≤ s.now ∧ s.now - s.start_time < 2 ^ 32 ∧
            s.now ≤ s.start_time + s.time i + s.time next
        else s.now + halTimerGet late s = s.start_time + s.time i ∧ s.time next + halTimerGet late s < 2 ^ 32
      else s.time next + s.time i < 2 ^ 32))
  | .start none _ _ _ | .stop none _ | .pass _ | .alloc | .allocRest _ _ _ | .free _ | .update _ _ _ | .interrupt
  | .callbackReturn => isTrue trivial

theorem Holds.deadlines_eq (h : Holds s F q R) : deadlines s = absolute s.start_time q := by
  rw [deadlines, collect_of_chain h.active (length_le_of_chain h.active)]
  have hq : (q.map Prod.fst).map (fun i => (i, s.time i)) = q := by
    rw [List.map_map]
    conv_rhs => rw [← List.map_id q]
    exact List.map_congr_left fun x hx => Prod.ext rfl (h.time x hx)
  rw [Option.getD_some, hq]

theorem others_of_notMem {i : Fin N} (hi : i ∉ q.map Prod.fst) (base : Nat) :
    others i (absolute base q) = absolute base q := by
  refine List.filter_eq_self.2 fun x hx => ?_
  have : x.1 ∈ q.map Prod.fst := by
    rw [← map_fst_absolute base]
    exact List.mem_map_of_mem hx
  simpa using fun he : x.1 = i => hi (he ▸ this)

theorem others_append (i : Fin N) (l₁ l₂ : List (Fin N × Nat)) : others i (l₁ ++ l₂) = others i l₁ ++ others i l₂ :=
  List.filter_append ..

theorem others_cons_self (i : Fin N) (t : Nat) (l : List (Fin N × Nat)) : others i ((i, t) :: l) = others i l := by
  simp [others]

/-- A start leaves the other deadlines, but where the new timer is to run in
front of one that has run for another time than its count says. -/
theorem start_iff {i : Fin N} {ticks : Nat} {late : Bool} (h : Holds s F q R)
    (hi : s.state i = .alloc ∨ s.state i = .callback)
    (hr : Requeued s s' F R (startQueue i ticks (halTimerGet late s) s.now s.start_time q)) :
    others i (deadlines s') = others i (deadlines s) ↔
      ∀ head, s.active = some head → halTimerGet late s > ticks → s.now + halTimerGet late s = s.start_time + s.time head := by
  have hiq : i ∉ q.map Prod.fst := by
    rw [h.mem_active]
    rcases hi with hi | hi <;> simp [hi]
  rw [hr.holds.deadlines_eq, hr.base, h.deadlines_eq, others_of_notMem hiq]
  cases q with
  | nil =>
    have hnone : s.active = none := h.active
    refine iff_of_true (by simp [startQueue, others]) fun head hhead => ?_
    rw [hnone] at hhead
    cases hhead
  | cons x q =>
    have hx : s.active = some x.1 := h.active.1
    have htx : s.time x.1 = x.2 := h.time x (by simp)
    rw [startQueue]
    split
    · next hgt =>
      have hcount : s.now + ticks + (halTimerGet late s - ticks) = s.now + halTimerGet late s := by omega
      have hmain : others i ((i, s.now + ticks) :: absolute (s.now + ticks) ((x.1, halTimerGet late s - ticks) :: q)) =
          absolute s.start_time (x :: q) ↔ s.now + halTimerGet late s = s.start_time + x.2 := by
        have hiq' : i ∉ ((x.1, halTimerGet late s - ticks) :: q).map Prod.fst := hiq
        rw [others_cons_self, others_of_notMem hiq', absolute_cons_eq_iff, hcount]
      refine hmain.trans ⟨fun heq head hhead _ => ?_, fun heq => ?_⟩
      · obtain rfl : x.1 = head := Option.some.inj (hx.symm.trans hhead)
        rw [htx, heq]
      · rw [← htx]
        exact heq x.1 hx hgt
    · next hgt =>
      refine iff_of_true ?_ fun head _ hgt' => absurd hgt' hgt
      have hins := absolute_insert i (s.start_time + x.2) (ticks - halTimerGet late s) q
      obtain ⟨hq, -, -⟩ := place_spec (ticks - halTimerGet late s) q
      generalize place (ticks - halTimerGet late s) q = r at hq hins ⊢
      have hparts : i ∉ (x :: r.1).map Prod.fst ∧ i ∉ r.2.2.map Prod.fst := by
        rw [hq] at hiq
        simpa [not_or, and_assoc] using hiq
      calc others i (absolute s.start_time (x :: (r.1 ++ (i, r.2.1) :: mapHead (· - r.2.1) r.2.2)))
        _ = others i (absolute s.start_time (x :: r.1) ++ (i, s.start_time + x.2 + (ticks - halTimerGet late s)) ::
              absolute (s.start_time + x.2 + total r.1) r.2.2) := by rw [absolute_cons, hins]; rfl
        _ = absolute s.start_time (x :: r.1) ++ absolute (s.start_time + x.2 + total r.1) r.2.2 := by
          rw [others_append, others_cons_self, others_of_notMem hparts.1, others_of_notMem hparts.2]
        _ = absolute s.start_time (x :: q) := by rw [hq, absolute_cons, absolute_cons, absolute_append]; rfl

/-- What is left of the deadlines without the timer between `p` and `l`. -/
theorem others_between {i : Fin N} {d : Nat} {p l : List (Fin N × Nat)}
    (hnd : ((p ++ (i, d) :: l).map Prod.fst).Nodup) (base : Nat) :
    others i (absolute base (p ++ (i, d) :: l)) = absolute base p ++ absolute (base + total p + d) l := by
  rw [List.map_append, List.map_cons, List.nodup_append, List.nodup_cons] at hnd
  have hip : i ∉ p.map Prod.fst := fun hm => hnd.2.2 i hm i (by simp) rfl
  rw [absolute_append, others_append, absolute_cons, others_cons_self, others_of_notMem hip,
    others_of_notMem hnd.2.1.1]

/-- The timer `y` runs next, and the count is added to its difference. -/
theorem count_iff {i : Fin N} {d : Nat} {y : Fin N × Nat} {l : List (Fin N × Nat)} {late : Bool}
    (h : Holds s F ((i, d) :: y :: l) R) (hcount : halTimerGet late s ≠ 0) :
    absolute s.now (mapHead (add32 · (halTimerGet late s)) (y :: l)) = absolute (s.start_time + d) (y :: l) ↔
      s.now + halTimerGet late s = s.start_time + d ∧ y.2 + halTimerGet late s < 2 ^ 32 := by
  have hy := h.bound y (by simp)
  have hlt := halTimerGet_lt h (by simp) late
  -- a count that is not null has not been reached yet
  have hrun : s.now + halTimerGet late s ≤ s.start_time + d + 2 := by
    have hload := h.load (i, d) rfl
    have hlate := Bool.toNat_le late
    simp only [halTimerStart] at hload
    simp only [halTimerGet] at hcount ⊢
    split at hload <;> omega
  generalize halTimerGet late s = count at hcount hlt hrun ⊢
  have hmain : absolute s.now ((y.1, add32 y.2 count) :: l) = absolute (s.start_time + d) ((y.1, y.2) :: l) ↔
      s.now + (y.2 + count) % 2 ^ 32 = s.start_time + d + y.2 :=
    absolute_cons_eq_iff
  refine hmain.trans ?_
  constructor
  · intro heq
    omega
  · rintro ⟨heq, hsum⟩
    rw [Nat.mod_eq_of_lt hsum]
    omega

/-- The timer `y` runs next, for what is left of its difference. -/
theorem catchUp_iff {i : Fin N} {d : Nat} {y : Fin N × Nat} {l : List (Fin N × Nat)}
    (h : Holds s F ((i, d) :: y :: l) R) :
    absolute s.now (catchUp (halTimerGetElapsedTime s - d) (y :: l)) = absolute (s.start_time + d) (y :: l) ↔
      s.start_time + d ≤ s.now ∧ s.now - s.start_time < 2 ^ 32 ∧ s.now ≤ s.start_time + d + y.2 := by
  have hd := h.bound (i, d) (by simp)
  have helapsed : halTimerGetElapsedTime s = (s.now - s.start_time) % 2 ^ 32 := rfl
  constructor
  · intro heq
    have hhead := congrArg List.head? heq
    rw [head?_absolute, head?_absolute, head_catchUp, List.head?_cons, Option.map_some, Option.map_some,
      Option.some.injEq, Prod.mk.injEq] at hhead
    have htime := hhead.2
    simp only at htime hd
    omega
  · rintro ⟨hle, hwrap, hdue⟩
    rw [helapsed, Nat.mod_eq_of_lt hwrap, catchUp_of_le (by omega)]
    have hmain : absolute s.now ((y.1, y.2 - (s.now - s.start_time - d)) :: l) =
        absolute (s.start_time + d) ((y.1, y.2) :: l) ↔ _ := absolute_cons_eq_iff
    exact hmain.2 (by omega)

/-- A stop leaves the other deadlines, but where the timer behind the stopped
one gets another time than is left until its deadline. -/
theorem stop_iff {i : Fin N} {d : Nat} {late : Bool} {p l : List (Fin N × Nat)} (h : Holds s F (p ++ (i, d) :: l) R)
    (hr : Requeued s s' F R
      (stopQueue d (halTimerGet late s) (halTimerGetElapsedTime s) s.now s.start_time p l)) :
    others i (deadlines s') = others i (deadlines s) ↔ ∀ next, s.next i = some next →
      if s.active = some i then
        if halTimerGet late s = 0 then
          s.start_time + s.time i ≤ s.now ∧ s.now - s.start_time < 2 ^ 32 ∧
            s.now ≤ s.start_time + s.time i + s.time next
        else s.now + halTimerGet late s = s.start_time + s.time i ∧ s.time next + halTimerGet late s < 2 ^ 32
      else s.time next + s.time i < 2 ^ 32 := by
  have hnd := h.active.nodup
  have hout : i ∉ (stopQueue d (halTimerGet late s) (halTimerGetElapsedTime s) s.now s.start_time p l).2.map Prod.fst :=
    fun hm => ((mem_stopQueue hnd i).1 hm).1 rfl
  rw [hr.holds.deadlines_eq, hr.base, h.deadlines_eq, others_of_notMem hout, others_between hnd]
  have htd : s.time i = d := h.time (i, d) (by simp)
  obtain ⟨hnext, hfirst⟩ := h.between
  cases l with
  | nil =>
    refine iff_of_true ?_ fun next hn => by rw [hnext] at hn; cases hn
    cases p with
    | nil => rfl
    | cons x p => simp [stopQueue, mapHead]
  | cons y l =>
    have hty : s.time y.1 = y.2 := h.time y (by simp)
    have hforall : ∀ P : Fin N → Prop, (∀ next, s.next i = some next → P next) ↔ P y.1 := by
      intro P
      rw [hnext]
      simp
    rw [hforall, htd, hty]
    cases p with
    | nil =>
      rw [if_pos (hfirst.2 rfl)]
      simp only [stopQueue]
      split
      · exact catchUp_iff h
      · next hcount => exact count_iff h hcount
    | cons x p =>
      have hact : s.active ≠ some i := fun he => by simpa using hfirst.1 he
      have hy := h.bound y (by simp)
      have hd := h.bound (i, d) (by simp)
      rw [if_neg hact, stopQueue, ← List.cons_append, absolute_append, List.append_right_inj]
      have hmain : absolute (s.start_time + total (x :: p)) ((y.1, add32 y.2 d) :: l) =
          absolute (s.start_time + total (x :: p) + d) ((y.1, y.2) :: l) ↔ _ := absolute_cons_eq_iff
      refine hmain.trans ?_
      simp only [add32] at hd ⊢
      omega

/-- A call for timer `i` leaves the deadlines of the other timers as they are,
and the list in their order, exactly when `Steady` holds before it. -/
theorem independent_iff (h : Reachable s) {e : Event N} {i : Fin N} (he : e.timer = some i)
    (hs : step e s = some s') :
    (others i (deadlines s') = others i (deadlines s) ∧ (deadlines s').Pairwise fun x y => x.2 ≤ y.2) ↔
      Steady e s := by
  have hsorted : (deadlines s').Pairwise fun x y => x.2 ≤ y.2 := absolute_sorted _ _
  rw [and_iff_left hsorted]
  obtain ⟨F, q, R, h, hidle⟩ := h.listed
  cases e with
  | start id update ticks late =>
    rcases step_start h hs with ⟨hno, rfl⟩ | ⟨j, rfl, hj, hr⟩
    · obtain rfl : id = some i := he
      refine iff_of_true rfl fun head _ hi => ?_
      exact absurd hi (not_or.2 (hno i rfl))
    · obtain rfl : j = i := Option.some.inj he
      rw [start_iff h hj hr]
      exact ⟨fun hst head hhead _ hgt => hst head hhead hgt, fun hst head hhead hgt => hst head hhead hj hgt⟩
  | update id callback param =>
    refine iff_of_true ?_ (by cases id <;> trivial)
    rw [step] at hs
    split at hs
    · cases hs
      have hr := hwtimerUpdate_holds h id callback param
      rw [hr.holds.deadlines_eq, hr.base, h.deadlines_eq]
    · cases hs
  | stop id late =>
    obtain rfl : id = some i := he
    rcases step_stop h hs with ⟨hno, rfl⟩ | ⟨j, hj, hst, R', -, hr⟩ | ⟨j, d, p, l, hj, hst, rfl, hr⟩
    · exact iff_of_true rfl fun next _ hi => absurd hi (hno i rfl).1
    · obtain rfl : i = j := Option.some.inj hj
      refine iff_of_true ?_ fun next _ hi => ?_
      · rw [hr.holds.deadlines_eq, hr.base, h.deadlines_eq]
      · rw [hst] at hi
        cases hi
    · obtain rfl : i = j := Option.some.inj hj
      rw [stop_iff h hr]
      exact ⟨fun hall next hn _ => hall next hn, fun hall next hn => hall next hn hst⟩
  | pass ticks => cases he
  | alloc => cases he
  | allocRest j callback param => cases he
  | free id => cases he
  | interrupt => cases he
  | callbackReturn => cases he

/-- The second timer is started one tick after the first one, and in front of
it. -/
theorem independent_iff_front : ∃ s s' : TimerList 2, Reachable s ∧
    step (.start (some 1) none 5 true) s = some s' ∧ Steady (.start (some 1) none 5 true) s ∧
    ((others 1 (deadlines s') = others 1 (deadlines s) ∧ (deadlines s').Pairwise fun x y => x.2 ≤ y.2) ↔
      Steady (.start (some 1) none 5 true) s) := by
  obtain ⟨s, hrun, hgood⟩ := Runs.exists_run_of_check step (fun _ _ => True)
    (fun s : TimerList 2 => ∃ now, s = hwtimerInit now) (some (hwtimerInit 0))
    [.alloc, .allocRest 0 none 0, .alloc, .allocRest 1 none 0, .start (some 0) none 10 true, .pass 1]
    (fun s => (step (.start (some 1) none 5 true) s).isSome ∧ Steady (.start (some 1) none 5 true) s)
    (fun s hs => ⟨0, (Option.some.inj hs).symm⟩) (by decide +kernel)
  obtain ⟨hsome, hsteady⟩ := of_decide_eq_true hgood
  obtain ⟨s', hs⟩ := Option.isSome_iff_exists.1 hsome
  exact ⟨s, s', ⟨_, hrun⟩, hs, hsteady, independent_iff ⟨_, hrun⟩ rfl hs⟩

/-- In the tick of its own start, the count of the first timer is less than the
time that it has to run. -/
theorem deadline_moves : ¬ ∀ (N : Nat) (s s' : TimerList N) (e : Event N) (i : Fin N), Reachable s →
    e.timer = some i → step e s = some s' →
    others i (deadlines s') = others i (deadlines s) ∧ (deadlines s').Pairwise fun x y => x.2 ≤ y.2 := by
  intro h
  obtain ⟨s, hrun, hgood⟩ := Runs.exists_run_of_check step (fun _ _ => True)
    (fun s : TimerList 2 => ∃ now, s = hwtimerInit now) (some (hwtimerInit 0))
    [.alloc, .allocRest 0 none 0, .alloc, .allocRest 1 none 0, .start (some 0) none 10 true]
    (fun s => (step (.start (some 1) none 5 true) s).any fun s' =>
      others 1 (deadlines s) = [(0, 10)] ∧ others 1 (deadlines s') = [(0, 9)])
    (fun s hs => ⟨0, (Option.some.inj hs).symm⟩) (by decide +kernel)
  obtain ⟨s', hs, hd⟩ := (Option.any_eq_true _ _).1 hgood
  obtain ⟨h₁, h₂⟩ := of_decide_eq_true hd
  have := (h 2 s s' _ 1 ⟨_, hrun⟩ rfl hs).1
  rw [h₁, h₂] at this
  cases this

end HwTimer
