import LittleBuddy.Hal.Key
import LittleBuddy.Lib.Sessions
/-!
# Taps and their clicks

`Watch` says what a tap is: keys go down, stay as they are for less than a long
press, and one of them goes up. Taps are cut into sequences (`Sessions`): by
the click interval, by a long press, by the tap of other keys, and after five
taps. `key_events`: the click events of a run are those of its sequences, as
long as no long press begins while a sequence is open; and the down and up
events of a key alternate.

A long press that begins while a sequence is open leaves its taps behind, to
be counted with the taps that follow the long press.
-/
open Sessions

namespace Hal.Key

variable (cfg : KeyConfig)

/-! ## Taps -/

/-- No press under way, keys `code` down since a time, or a long press of them. -/
inductive Phase where
  | rest
  | press (code : KeyCode) (since : UInt32)
  | long (code : KeyCode)

/-- What can be said about the samples up to now. -/
structure Watch where
  code_down : KeyCode
  phase : Phase
  marks : List (Mark KeyCode UInt32)

def Watch.init : Watch := ⟨0, .rest, []⟩

/-- A press ends with the first of its keys that goes up, a long press with the
last one. -/
def Watch.release (w : Watch) (x : Sample) : Watch :=
  let up_new := ~~~x.code_down &&& w.code_down
  match w.phase with
  | .rest => w
  | .press code _ =>
    if up_new ≠ 0 then { w with
      phase := .rest
      marks := w.marks ++ [.hit code x.time] }
    else w
  | .long code => if up_new ≠ 0 ∧ x.code_down &&& code = 0 then { w with phase := .rest } else w

def Watch.idle (w : Watch) (x : Sample) : Watch :=
  match w.phase with
  | .rest => { w with marks := w.marks ++ [.idle x.time] }
  | _ => w

/-- A press is of all keys that are down when the last one of them goes down. -/
def Watch.press (w : Watch) (x : Sample) : Watch :=
  let down_new := x.code_down &&& ~~~w.code_down
  let w := { w with code_down := x.code_down }
  if down_new ≠ 0 then
    match w.phase with
    | .long _ => w
    | _ => { w with phase := .press x.code_down x.time }
  else w

def Watch.hold (w : Watch) (x : Sample) : Watch :=
  match w.phase with
  | .press code since =>
    if x.time - since ≥ cfg.longpress_threshold then { w with
      phase := .long code
      marks := w.marks ++ [.stop code] }
    else w
  | _ => w

def Watch.sample (w : Watch) (x : Sample) : Watch := (((w.release x).idle x).press x).hold cfg x

theorem release_spec (w : Watch) (x : Sample) :
    (w.release x).code_down = w.code_down ∧ ∃ ms, (w.release x).marks = w.marks ++ ms := by
  obtain ⟨code_down, phase, marks⟩ := w
  cases phase with
  | rest => exact ⟨rfl, [], (List.append_nil _).symm⟩
  | press code since =>
    simp only [Watch.release]
    split
    · exact ⟨rfl, _, rfl⟩
    · exact ⟨rfl, [], (List.append_nil _).symm⟩
  | long code =>
    simp only [Watch.release]
    split <;> exact ⟨rfl, [], (List.append_nil _).symm⟩

theorem idle_spec (w : Watch) (x : Sample) :
    (w.idle x).code_down = w.code_down ∧ ∃ ms, (w.idle x).marks = w.marks ++ ms := by
  obtain ⟨code_down, phase, marks⟩ := w
  cases phase with
  | rest => exact ⟨rfl, _, rfl⟩
  | press code since => exact ⟨rfl, [], (List.append_nil _).symm⟩
  | long code => exact ⟨rfl, [], (List.append_nil _).symm⟩

theorem press_marks (w : Watch) (x : Sample) : (w.press x).marks = w.marks := by
  obtain ⟨code_down, phase, marks⟩ := w
  cases phase <;> simp only [Watch.press] <;> split <;> rfl

theorem hold_marks (w : Watch) (x : Sample) : ∃ ms, (w.hold cfg x).marks = w.marks ++ ms := by
  obtain ⟨code_down, phase, marks⟩ := w
  cases phase with
  | rest => exact ⟨[], (List.append_nil _).symm⟩
  | press code since =>
    simp only [Watch.hold]
    split
    · exact ⟨_, rfl⟩
    · exact ⟨[], (List.append_nil _).symm⟩
  | long code => exact ⟨[], (List.append_nil _).symm⟩

/-- What was seen stays. -/
theorem sample_marks (w : Watch) (x : Sample) : ∃ ms, (w.sample cfg x).marks = w.marks ++ ms := by
  obtain ⟨ms₁, h₁⟩ := (release_spec w x).2
  obtain ⟨ms₂, h₂⟩ := (idle_spec (w.release x) x).2
  obtain ⟨ms₃, h₃⟩ := hold_marks cfg (((w.release x).idle x).press x) x
  exact ⟨ms₁ ++ ms₂ ++ ms₃, by simp only [Watch.sample, h₃, press_marks, h₂, h₁, List.append_assoc]⟩

/-- The taps, resting times and long presses of a run. -/
def marksOf (xs : List Sample) : List (Mark KeyCode UInt32) := (xs.foldl (Watch.sample cfg) .init).marks

/-- The click interval has passed. -/
def KeyConfig.Over (last time : UInt32) : Prop := time - last ≥ cfg.doubleclick_threshold

instance : DecidableRel cfg.Over := fun last time => inferInstanceAs (Decidable (time - last ≥ cfg.doubleclick_threshold))

/-- The taps of a sequence at most. -/
abbrev maxTaps : Nat := maxKeyClickCount.toNat + 1

/-- The sequences of taps of a stream. -/
abbrev sequences (ms : List (Mark KeyCode UInt32)) : Groups KeyCode UInt32 := groups cfg.Over maxTaps ms

/-! ## Clicks -/

/-- The click events among those sent, with their multiplicities. -/
def clicksOf (sent : List (KeyCode × KeyEvent)) : List (KeyCode × Nat) :=
  sent.filterMap fun x =>
    match x.2 with
    | .click n => some (x.1, n.toNat + 1)
    | _ => none

theorem clicksOf_append (l l' : List (KeyCode × KeyEvent)) : clicksOf (l ++ l') = clicksOf l ++ clicksOf l' :=
  List.filterMap_append

theorem clicksOf_none {l : List (KeyCode × KeyEvent)} (h : ∀ x ∈ l, ∀ n, x.2 ≠ .click n) : clicksOf l = [] := by
  rw [clicksOf, List.filterMap_eq_nil_iff]
  intro x hx
  have := h x hx
  split
  · next n heq => exact absurd heq (this n)
  · rfl

theorem clicksOf_upEvents (long : Bool) (keys : List Nat) : clicksOf (upEvents long keys) = [] := by
  apply clicksOf_none
  intro x hx n
  simp only [upEvents, List.mem_flatMap, List.mem_cons] at hx
  obtain ⟨_, _, rfl | hx⟩ := hx
  · simp
  · cases long <;> simp at hx
    simp [hx]

theorem clicksOf_downEvents (first : Bool) (keys : List Nat) : clicksOf (downEvents first keys) = [] := by
  apply clicksOf_none
  intro x hx n
  simp only [downEvents, List.mem_flatMap, List.mem_cons, List.not_mem_nil, or_false] at hx
  obtain ⟨_, _, rfl | rfl⟩ := hx <;> cases first <;> simp

/-- The open sequence is what the handler keeps of it. -/
def Pending (s : KeyStatus) : Option (Group KeyCode UInt32) → Prop
  | none => s.code_click = 0
  | some x => x = ⟨s.code_click, s.cnt_click.toNat + 1, s.time_click⟩ ∧ s.code_click ≠ 0 ∧ s.cnt_click < maxKeyClickCount

/-- The handler's state in a phase; `Released` is what holds of the keys of a
tap while its click waits. -/
def PhaseOk (Released : Prop) (s : KeyStatus) (current : Option (Group KeyCode UInt32)) : Phase → Prop
  | .rest =>
    s.event = .none ∧ current = none ∧ s.code_click = 0 ∨
    s.event = .up ∧ current ≠ none ∧ Pending s current ∧ s.code_click = s.code_ready ∧ Released
  | .press code since =>
    s.event = .down ∧ s.code_ready = code ∧ s.code_down = code ∧ code ≠ 0 ∧ s.time_updown = since ∧ Pending s current
  | .long code => s.isLong ∧ s.code_ready = code ∧ current = none ∧ s.code_click = 0

/-- The handler knows what has been seen, and has sent the clicks of the
sequences that have ended. -/
structure Agrees (Released : Prop) (w : Watch) (s : KeyStatus) : Prop where
  code_down : s.code_down = w.code_down
  clicks : clicksOf s.sent = (sequences cfg w.marks).closed
  phase : PhaseOk Released s (sequences cfg w.marks).current w.phase

variable {cfg} {w : Watch} {s : KeyStatus} {x : Sample} {g : Groups KeyCode UInt32}

/-! ## Steps -/

theorem sequences_snoc (ms : List (Mark KeyCode UInt32)) (m : Mark KeyCode UInt32) :
    sequences cfg (ms ++ [m]) = (sequences cfg ms).mark cfg.Over maxTaps m := groups_append _ _ _ _

theorem clicksOf_snoc (l : List (KeyCode × KeyEvent)) (code : KeyCode) (n : UInt8) :
    clicksOf (l ++ [(code, .click n)]) = clicksOf l ++ [(code, n.toNat + 1)] := clicksOf_append _ _

/-- What is left when the click handling is at its end: a sequence that is over
or full has ended. -/
theorem endClick_spec (time : UInt32) {x₀ : Group KeyCode UInt32} (hclicks : clicksOf s.sent = g.closed)
    (hcurrent : g.current = some x₀) (hx₀ : x₀ = ⟨s.code_click, s.cnt_click.toNat + 1, s.time_click⟩)
    (hclick : s.code_click ≠ 0) (hready : s.code_click = s.code_ready) (hup : s.event = .up) {Released : Prop}
    (hreleased : Released) :
    clicksOf (endClick cfg time s).sent = ((g.closeFull maxTaps).mark cfg.Over maxTaps (.idle time)).closed ∧
    PhaseOk Released (endClick cfg time s) ((g.closeFull maxTaps).mark cfg.Over maxTaps (.idle time)).current .rest ∧
    (endClick cfg time s).code_ready = s.code_ready ∧ (endClick cfg time s).code_down = s.code_down := by
  obtain ⟨closed, current⟩ := g
  simp only at hclicks hcurrent
  subst hcurrent hx₀
  by_cases hfull : s.cnt_click ≥ maxKeyClickCount
  · have hfull' : s.cnt_click.toNat + 1 ≥ maxTaps := Nat.succ_le_succ (UInt8.le_iff_toNat_le.1 hfull)
    simp only [endClick, sendKeyEvent, hfull, or_true, if_true, Groups.closeFull, hfull', Groups.close, Groups.mark]
    refine ⟨?_, .inl ⟨rfl, rfl, rfl⟩, trivial, trivial⟩
    rw [clicksOf_snoc, hclicks]
  · have hfull' : ¬ s.cnt_click.toNat + 1 ≥ maxTaps :=
      fun h => hfull (UInt8.le_iff_toNat_le.2 (Nat.le_of_succ_le_succ h))
    simp only [endClick, sendKeyEvent, hfull, or_false, Groups.closeFull, hfull', if_false, Groups.mark]
    by_cases hover : time - s.time_click ≥ cfg.doubleclick_threshold
    · rw [if_pos hover, if_pos (show cfg.Over _ _ from hover)]
      refine ⟨?_, .inl ⟨rfl, rfl, rfl⟩, rfl, rfl⟩
      rw [clicksOf_snoc, hclicks]
      rfl
    · rw [if_neg hover, if_neg (show ¬ cfg.Over _ _ from hover)]
      exact ⟨hclicks, .inr ⟨hup, by simp, ⟨rfl, hclick, UInt8.not_le.1 hfull⟩, hready, hreleased⟩, rfl, rfl⟩

/-- A tap is counted. -/
theorem countClick_hit (hup : ~~~x.code_down &&& s.code_down ≠ 0) (hevent : s.event = .up)
    (hdown : s.code_down = s.code_ready) (hclicks : clicksOf s.sent = g.closed)
    (hpending : Pending s g.current) :
    ∃ x₀ s', countClick x.time (~~~x.code_down &&& s.code_down) s = s' ∧ clicksOf s'.sent = (g.hit s.code_ready x.time).closed ∧
      (g.hit s.code_ready x.time).current = some x₀ ∧ x₀ = ⟨s'.code_click, s'.cnt_click.toNat + 1, s'.time_click⟩ ∧
      s'.code_click = s.code_ready ∧ s'.code_ready = s.code_ready ∧ s'.event = .up ∧ s'.code_down = s.code_down := by
  obtain ⟨closed, _ | x₀⟩ := g
  · -- the first tap
    exact ⟨_, _, countClick_first x.time hpending, hclicks, rfl, rfl, rfl, rfl, hevent, rfl⟩
  · obtain ⟨rfl, hclick, hlt⟩ := hpending
    by_cases hcode : s.code_click = s.code_ready
    · refine ⟨_, _, countClick_again x.time hclick hcode hup (by rw [up_or_down, hdown, hcode]), ?_, ?_, rfl, hcode, rfl,
        hevent, rfl⟩
      · simp only [Groups.hit, if_pos hcode]
        exact hclicks
      · have hnat : (s.cnt_click + 1).toNat = s.cnt_click.toNat + 1 := by
          have := UInt8.lt_iff_toNat_lt.1 hlt
          rw [UInt8.toNat_add]
          exact Nat.mod_eq_of_lt (Nat.lt_of_le_of_lt this (by decide))
        simp only [Groups.hit, if_true, hnat, hcode]
    · refine ⟨_, _, countClick_other x.time hclick hcode, ?_, ?_, rfl, rfl, rfl, hevent, rfl⟩
      · simp only [Groups.hit, if_neg hcode, Groups.close, clicksOf_snoc]
        rw [hclicks]
      · simp only [Groups.hit, if_neg hcode]
        rfl

/-- `checkUp` leaves alone what the click handling works on. -/
structure SameClicks (s t : KeyStatus) : Prop where
  code_down : t.code_down = s.code_down
  code_ready : t.code_ready = s.code_ready
  code_click : t.code_click = s.code_click
  time_click : t.time_click = s.time_click
  cnt_click : t.cnt_click = s.cnt_click
  clicks : clicksOf t.sent = clicksOf s.sent

theorem checkUp_same (time : UInt32) (code_down : KeyCode) (s : KeyStatus) :
    SameClicks s (checkUp time code_down s) := by
  rw [checkUp_eq]
  refine ⟨rfl, rfl, rfl, rfl, rfl, ?_⟩
  rw [clicksOf_append, clicksOf_upEvents, List.append_nil]

theorem Pending.same {t : KeyStatus} (h : SameClicks s t) {current : Option (Group KeyCode UInt32)}
    (hp : Pending s current) : Pending t current := by
  cases current with
  | none => exact h.code_click.trans hp
  | some x₀ =>
    unfold Pending at hp ⊢
    rw [h.code_click, h.cnt_click, h.time_click]
    exact hp

/-- A sequence that waits is not full. -/
theorem Pending.closeFull (h : Pending s g.current) : g.closeFull maxTaps = g := by
  obtain ⟨closed, _ | x₀⟩ := g
  · rfl
  · obtain ⟨rfl, -, hlt⟩ := h
    have := UInt8.lt_iff_toNat_lt.1 hlt
    simp only [Groups.closeFull]
    rw [if_neg (Nat.not_le.2 (Nat.succ_lt_succ this))]

/-- The click handling while a sequence waits. -/
theorem agrees_wait {code_down : KeyCode} {marks : List (Mark KeyCode UInt32)} {Released : Prop}
    (hclicks : clicksOf s.sent = (sequences cfg marks).closed) (hevent : s.event = .up)
    (hcurrent : (sequences cfg marks).current ≠ none) (hpending : Pending s (sequences cfg marks).current)
    (hready : s.code_click = s.code_ready) (hmissing : Missing s.code_down s.code_ready) (hcode : s.code_down = code_down)
    (hreleased : Released) :
    Agrees cfg Released ⟨code_down, .rest, marks ++ [.idle x.time]⟩
      (checkClick cfg x.time (~~~x.code_down &&& s.code_down) s) ∧
    (checkClick cfg x.time (~~~x.code_down &&& s.code_down) s).code_ready = s.code_ready := by
  have hfull := hpending.closeFull
  obtain ⟨x₀, hx₀⟩ := Option.ne_none_iff_exists'.1 hcurrent
  rw [hx₀] at hpending
  obtain ⟨heq, hclick, -⟩ := hpending
  have hup : ~~~x.code_down &&& s.code_down ||| s.code_down ≠ s.code_click := by
    rw [up_or_down, hready]
    exact hmissing.ne
  rw [checkClick, if_pos hevent, countClick_wait x.time hclick hready hup]
  obtain ⟨h₁, h₂, h₃, h₄⟩ := endClick_spec x.time hclicks hx₀ heq hclick hready hevent hreleased
  rw [hfull] at h₁ h₂
  refine ⟨⟨h₄.trans hcode, ?_, ?_⟩, h₃⟩
  · rw [sequences_snoc]
    exact h₁
  · rw [sequences_snoc]
    exact h₂

/-- The click handling of a tap. -/
theorem agrees_hit {marks : List (Mark KeyCode UInt32)} {Released : Prop}
    (hclicks : clicksOf s.sent = (sequences cfg marks).closed) (hevent : s.event = .up)
    (hpending : Pending s (sequences cfg marks).current) (hdown : s.code_down = s.code_ready) (hne : s.code_ready ≠ 0)
    (hup : ~~~x.code_down &&& s.code_down ≠ 0) (hreleased : Released) :
    Agrees cfg Released ⟨s.code_down, .rest, marks ++ [.hit s.code_ready x.time] ++ [.idle x.time]⟩
      (checkClick cfg x.time (~~~x.code_down &&& s.code_down) s) ∧
    (checkClick cfg x.time (~~~x.code_down &&& s.code_down) s).code_ready = s.code_ready := by
  obtain ⟨x₀, t, ht, htclicks, hcurrent, heq, htclick, htready, htevent, htdown⟩ :=
    countClick_hit hup hevent hdown hclicks hpending
  rw [checkClick, if_pos hevent, ht]
  obtain ⟨h₁, h₂, h₃, h₄⟩ := endClick_spec x.time htclicks hcurrent heq (htclick.symm ▸ hne) (htclick.trans htready.symm)
    htevent hreleased
  refine ⟨⟨h₄.trans htdown, ?_, ?_⟩, h₃.trans htready⟩
  · rw [sequences_snoc, sequences_snoc]
    exact h₁
  · rw [sequences_snoc, sequences_snoc]
    exact h₂

/-- The checks up to the click handling. -/
theorem agrees_idle (h : Agrees cfg (Missing s.code_down s.code_ready) w s) :
    ∃ s', checkClick cfg x.time (~~~x.code_down &&& s.code_down) (checkUp x.time x.code_down s) = s' ∧
      Agrees cfg (x.code_down &&& ~~~s.code_down ≠ 0 ∨ Missing x.code_down s'.code_ready) ((w.release x).idle x) s' ∧
      (∀ code since, ((w.release x).idle x).phase = .press code since → ~~~x.code_down &&& s.code_down = 0) := by
  have hsame := checkUp_same x.time x.code_down s
  have hcheck := checkUp_eq x.time x.code_down s
  obtain ⟨code_down, phase, marks⟩ := w
  obtain ⟨hcode, hclicks, hphase⟩ := h
  simp only at hcode hclicks hphase
  subst hcode
  rw [← hsame.clicks] at hclicks
  refine ⟨_, rfl, ?_⟩
  cases phase with
  | rest =>
    refine ⟨?_, fun code since hp => by cases hp⟩
    simp only [Watch.release, Watch.idle]
    rcases hphase with ⟨he, hcurrent, hclick⟩ | ⟨he, hcurrent, hpending, hready, hmissing⟩
    · -- nothing waits
      have hevent : (checkUp x.time x.code_down s).event = .none := by
        rw [checkUp_rest x.time (by simp [he]) (by simp [KeyStatus.isLong, he])]
        exact he
      rw [checkClick_skip cfg x.time (by simp [hevent])]
      refine ⟨hsame.code_down, ?_, .inl ⟨hevent, ?_, hsame.code_click.trans hclick⟩⟩
      · simp only [sequences_snoc, Groups.mark, hcurrent]
        exact hclicks
      · simp only [sequences_snoc, Groups.mark, hcurrent]
    · -- a sequence waits, and may be over
      have hevent : (checkUp x.time x.code_down s).event = .up := by
        rw [checkUp_rest x.time (by simp [he]) (by simp [KeyStatus.isLong, he])]
        exact he
      have hreleased : x.code_down &&& ~~~s.code_down ≠ 0 ∨ Missing x.code_down s.code_ready :=
        (em _).elim (fun hdown => .inr (hmissing.of_no_down hdown)) .inl
      have hwait := agrees_wait (x := x) hclicks hevent hcurrent (hpending.same hsame)
        (by rw [hsame.code_click, hsame.code_ready, hready]) (by rw [hsame.code_down, hsame.code_ready]; exact hmissing)
        hsame.code_down hreleased
      rw [hsame.code_down, hsame.code_ready] at hwait
      rw [hwait.2]
      exact hwait.1
  | press code since =>
    obtain ⟨hevent, rfl, hready, hne, rfl, hpending⟩ := hphase
    by_cases hup : ~~~x.code_down &&& s.code_down = 0
    · -- still pressed
      rw [hup, checkUp_none x.time hup, checkClick_skip cfg x.time (by simp [hevent])]
      refine ⟨?_, fun _ _ _ => rfl⟩
      simp only [Watch.release, hup, ne_eq, not_true_eq_false, if_false, Watch.idle]
      rw [hsame.clicks] at hclicks
      exact ⟨rfl, hclicks, hevent, rfl, hready, hne, rfl, hpending⟩
    · -- a tap
      have hevent' : (checkUp x.time x.code_down s).event = .up := by
        have hlong : ¬ s.isLong := by simp [KeyStatus.isLong, hevent]
        rw [hcheck]
        simp only
        rw [if_neg hup, if_neg hlong, if_pos hevent]
      have hhit := agrees_hit (x := x) hclicks hevent' (hpending.same hsame)
        (by rw [hsame.code_down, hsame.code_ready, hready]) (by rw [hsame.code_ready]; exact hne)
        (by rw [hsame.code_down]; exact hup)
        (show x.code_down &&& ~~~s.code_down ≠ 0 ∨ Missing x.code_down s.code_ready from
          .inr (hready ▸ missing_of_up hup))
      rw [hsame.code_down, hsame.code_ready] at hhit
      simp only [Watch.release, hup, ne_eq, not_false_eq_true, if_true, Watch.idle]
      refine ⟨?_, fun code since hp => by cases hp⟩
      rw [hhit.2]
      exact hhit.1
  | long code =>
    obtain ⟨hlong, rfl, hcurrent, hclick⟩ := hphase
    by_cases hend : ~~~x.code_down &&& s.code_down ≠ 0 ∧ x.code_down &&& s.code_ready = 0
    · -- the last key of the long press is up
      have hevent : (checkUp x.time x.code_down s).event = .none := by
        rw [hcheck]
        simp only
        rw [if_neg hend.1, if_pos hlong, if_pos hend.2]
      rw [checkClick_skip cfg x.time (by simp [hevent])]
      simp only [Watch.release, if_pos hend, Watch.idle]
      refine ⟨⟨hsame.code_down, ?_, .inl ⟨hevent, ?_, hsame.code_click.trans hclick⟩⟩, fun code since hp => by cases hp⟩
      · simp only [sequences_snoc, Groups.mark, hcurrent]
        exact hclicks
      · simp only [sequences_snoc, Groups.mark, hcurrent]
    · have hevent : (checkUp x.time x.code_down s).event = s.event := by
        rw [hcheck]
        simp only
        split
        · rfl
        · next hup => exact if_neg (fun hz => hend ⟨hup, hz⟩)
      have hup : (checkUp x.time x.code_down s).event ≠ .up := by
        rw [hevent]
        rcases hlong with he | he <;> simp [he]
      rw [checkClick_skip cfg x.time hup]
      simp only [Watch.release, if_neg hend, Watch.idle]
      refine ⟨⟨hsame.code_down, hclicks, ?_, hsame.code_ready, hcurrent, hsame.code_click.trans hclick⟩,
        fun code since hp => by cases hp⟩
      unfold KeyStatus.isLong
      rw [hevent]
      exact hlong

theorem checkDown_pending {time : UInt32} {code_down : KeyCode} {current : Option (Group KeyCode UInt32)}
    (h : Pending s current) : Pending (checkDown time code_down s) current := by
  rw [checkDown_eq]
  cases current with
  | none => exact h
  | some x₀ => exact h

/-- Newly down keys. -/
theorem agrees_press (h : Agrees cfg (x.code_down &&& ~~~s.code_down ≠ 0 ∨ Missing x.code_down s.code_ready) w s)
    (hup : ∀ code since, w.phase = .press code since → ~~~x.code_down &&& s.code_down = 0) :
    Agrees cfg (Missing x.code_down (checkDown x.time x.code_down s).code_ready) (w.press x)
      (checkDown x.time x.code_down s) := by
  obtain ⟨code_down, phase, marks⟩ := w
  obtain ⟨hcode, hclicks, hphase⟩ := h
  simp only at hcode hclicks hphase
  subst hcode
  have hsent : clicksOf (checkDown x.time x.code_down s).sent = (sequences cfg marks).closed := by
    rw [checkDown_eq]
    simp only
    rw [clicksOf_append, clicksOf_downEvents, List.append_nil, hclicks]
  by_cases hdown : x.code_down &&& ~~~s.code_down = 0
  · -- no key is newly down
    have hready : (checkDown x.time x.code_down s).code_ready = s.code_ready := by
      rw [checkDown_eq]
      exact if_neg (fun h => h.1 hdown)
    have hevent : (checkDown x.time x.code_down s).event = s.event := by
      rw [checkDown_eq]
      exact if_neg (fun h => h.1 hdown)
    have htime : (checkDown x.time x.code_down s).time_updown = s.time_updown := by
      rw [checkDown_eq]
      exact if_pos hdown
    have hw : (⟨s.code_down, phase, marks⟩ : Watch).press x = ⟨x.code_down, phase, marks⟩ := by
      simp only [Watch.press, hdown, ne_eq, not_true_eq_false, if_false]
    rw [hw, hready]
    refine ⟨by rw [checkDown_eq], hsent, ?_⟩
    cases phase with
    | rest =>
      rcases hphase with ⟨he, hcurrent, hclick⟩ | ⟨he, hcurrent, hpending, hclick, hreleased⟩
      · exact .inl ⟨hevent.trans he, hcurrent, by rw [checkDown_eq]; exact hclick⟩
      · refine .inr ⟨hevent.trans he, hcurrent, checkDown_pending hpending, ?_, hreleased.resolve_left (fun h => h hdown)⟩
        rw [hready, checkDown_eq]
        exact hclick
    | press code since =>
      obtain ⟨he, rfl, hcode, hne, rfl, hpending⟩ := hphase
      have hsame : x.code_down = s.code_down := eq_of_no_change (hup _ _ rfl) hdown
      exact ⟨hevent.trans he, hready, by rw [checkDown_eq]; exact hsame.trans hcode, hne, htime, checkDown_pending hpending⟩
    | long code =>
      obtain ⟨hlong, rfl, hcurrent, hclick⟩ := hphase
      refine ⟨?_, hready, hcurrent, by rw [checkDown_eq]; exact hclick⟩
      unfold KeyStatus.isLong
      rw [hevent]
      exact hlong
  · -- a press, unless a long press goes on
    have hne : x.code_down ≠ 0 := by
      intro hzero
      apply hdown
      rw [hzero]
      exact BitVec.zero_and
    have hpress : ∀ current, s.isPress → Pending s current → PhaseOk (Missing x.code_down (checkDown x.time x.code_down s).code_ready)
        (checkDown x.time x.code_down s) current (.press x.code_down x.time) := by
      intro current hpress hpending
      refine ⟨?_, ?_, by rw [checkDown_eq], hne, ?_, checkDown_pending hpending⟩
      · rw [checkDown_eq]
        exact if_pos ⟨hdown, hpress⟩
      · rw [checkDown_eq]
        exact if_pos ⟨hdown, hpress⟩
      · rw [checkDown_eq]
        exact if_neg hdown
    simp only [Watch.press, ne_eq, hdown, not_false_eq_true, if_true]
    cases phase with
    | rest =>
      refine ⟨by rw [checkDown_eq], hsent, ?_⟩
      rcases hphase with ⟨he, hcurrent, hclick⟩ | ⟨he, -, hpending, -, -⟩
      · exact hpress _ (.inl he) (by simp only [hcurrent]; exact hclick)
      · exact hpress _ (.inr (.inr he)) hpending
    | press code since =>
      obtain ⟨he, -, -, -, -, hpending⟩ := hphase
      exact ⟨by rw [checkDown_eq], hsent, hpress _ (.inr (.inl he)) hpending⟩
    | long code =>
      obtain ⟨hlong, rfl, hcurrent, hclick⟩ := hphase
      have hnot : ¬ s.isPress := by
        rintro (he | he | he) <;> rcases hlong with hl | hl <;> rw [he] at hl <;> cases hl
      refine ⟨by rw [checkDown_eq], hsent, ?_, ?_, hcurrent, by rw [checkDown_eq]; exact hclick⟩
      · unfold KeyStatus.isLong
        rw [checkDown_eq]
        simp only
        rw [if_neg (fun h => hnot h.2)]
        exact hlong
      · rw [checkDown_eq]
        exact if_neg (fun h => hnot h.2)

/-- Long presses: one that begins finds no open sequence. -/
theorem agrees_hold (h : Agrees cfg (Missing s.code_down s.code_ready) w s)
    (halone : StopsAlone cfg.Over maxTaps (w.hold cfg x).marks) :
    Agrees cfg (Missing (checkLongPress cfg x.time s).code_down (checkLongPress cfg x.time s).code_ready) (w.hold cfg x)
      (checkLongPress cfg x.time s) := by
  obtain ⟨code_down, phase, marks⟩ := w
  obtain ⟨hcode, hclicks, hphase⟩ := h
  simp only at hcode hclicks hphase
  subst hcode
  cases phase with
  | rest =>
    have hrest : s.event ≠ .down ∧ ¬ s.isLong := by
      rcases hphase with ⟨he, -⟩ | ⟨he, -⟩ <;> simp [KeyStatus.isLong, he]
    rw [checkLongPress_rest cfg x.time hrest.1 hrest.2]
    exact ⟨rfl, hclicks, hphase⟩
  | press code since =>
    obtain ⟨hevent, rfl, hready, hne, rfl, hpending⟩ := hphase
    have hsub : s.code_down &&& s.code_ready = s.code_ready := by rw [hready, BitVec.and_self]
    simp only [checkLongPress, hsub, hevent, if_true, Watch.hold] at halone ⊢
    by_cases hlong : x.time - s.time_updown ≥ cfg.longpress_threshold
    · rw [if_pos hlong] at halone
      rw [if_pos hlong, if_pos hlong]
      have hcurrent : (sequences cfg marks).current = none := halone marks s.code_ready [] rfl
      have hmarks : sequences cfg (marks ++ [.stop s.code_ready]) = sequences cfg marks := by
        simp only [sequences_snoc, Groups.mark, Groups.close, hcurrent]
      rw [hcurrent] at hpending
      refine ⟨rfl, ?_, .inl rfl, rfl, ?_, hpending⟩
      · rw [hmarks]
        simp only [sendKeyEvent]
        rw [clicksOf_append, hclicks, clicksOf_none (by simp), List.append_nil]
      · rw [hmarks]
        exact hcurrent
    · rw [if_neg hlong, if_neg hlong]
      exact ⟨rfl, hclicks, hevent, rfl, hready, hne, rfl, hpending⟩
  | long code =>
    obtain ⟨hlong, rfl, hcurrent, hclick⟩ := hphase
    obtain ⟨event, cnt_repeat, sent, hevent, hsent, heq⟩ := checkLongPress_long cfg x.time hlong
    rw [heq]
    refine ⟨rfl, ?_, hevent, rfl, hcurrent, hclick⟩
    simp only [Watch.hold]
    rw [clicksOf_append, hclicks, clicksOf_none, List.append_nil]
    intro y hy n
    rcases hsent y hy with he | he <;> simp [he]

theorem agrees_sample (h : Agrees cfg (Missing s.code_down s.code_ready) w s)
    (halone : StopsAlone cfg.Over maxTaps (w.sample cfg x).marks) :
    Agrees cfg (Missing (halKeyDebounceHandler cfg s x).code_down (halKeyDebounceHandler cfg s x).code_ready)
      (w.sample cfg x) (halKeyDebounceHandler cfg s x) := by
  obtain ⟨s', hs', hidle, hpress⟩ := agrees_idle (x := x) h
  have hcode : s'.code_down = s.code_down := by
    rw [hidle.code_down, (idle_spec _ x).1, (release_spec w x).1, h.code_down]
  rw [← hcode] at hidle hpress
  have hdown : (checkDown x.time x.code_down s').code_down = x.code_down := by rw [checkDown_eq]
  have hnext := agrees_press hidle hpress
  rw [halKeyDebounceHandler, hs']
  apply agrees_hold _ halone
  rw [hdown]
  exact hnext

theorem agrees_init : Agrees cfg (Missing KeyStatus.init.code_down KeyStatus.init.code_ready) .init .init :=
  ⟨rfl, rfl, .inl ⟨rfl, rfl, rfl⟩⟩

theorem agrees_run (xs : List Sample) (halone : StopsAlone cfg.Over maxTaps (marksOf cfg xs)) :
    Agrees cfg (Missing (handleAll cfg xs).code_down (handleAll cfg xs).code_ready) (xs.foldl (Watch.sample cfg) .init)
      (handleAll cfg xs) := by
  induction xs using List.reverseRecOn with
  | nil => exact agrees_init
  | append_singleton xs x ih =>
    unfold marksOf at halone ih
    unfold handleAll at ih ⊢
    rw [List.foldl_append] at halone ⊢
    rw [List.foldl_append]
    obtain ⟨ms, hms⟩ := sample_marks cfg (xs.foldl (Watch.sample cfg) .init) x
    apply agrees_sample _ halone
    apply ih
    rw [List.foldl_cons, List.foldl_nil, hms] at halone
    exact halone.of_append

/-! ## Down and up -/

/-- The down events (`true`) and the up events of a key, in their order. -/
def edges (k : Nat) (sent : List (KeyCode × KeyEvent)) : List Bool :=
  sent.filterMap fun y =>
    if y.1 = codeOf k then
      match y.2 with
      | .down => some true
      | .up => some false
      | _ => none
    else none

/-- Down, up, down and so on. -/
def Alternating (l : List Bool) : Prop := ∀ (i : Nat) (b : Bool), l[i]? = some b → b = (i % 2 == 0)

theorem Alternating.snoc {l : List Bool} {b : Bool} (h : Alternating l) (hb : b = (l.length % 2 == 0)) :
    Alternating (l ++ [b]) := by
  intro i c hc
  rcases Nat.lt_trichotomy i l.length with hlt | rfl | hgt
  · rw [List.getElem?_append_left hlt] at hc
    exact h i c hc
  · rw [List.getElem?_append_right (Nat.le_refl _), Nat.sub_self] at hc
    rw [← Option.some.inj hc, hb]
  · rw [List.getElem?_eq_none (by simp; omega)] at hc
    cases hc

theorem edges_append (k : Nat) (l l' : List (KeyCode × KeyEvent)) : edges k (l ++ l') = edges k l ++ edges k l' :=
  List.filterMap_append

theorem edges_none {k : Nat} {l : List (KeyCode × KeyEvent)} (h : ∀ y ∈ l, y.2 ≠ .down ∧ y.2 ≠ .up) : edges k l = [] := by
  rw [edges, List.filterMap_eq_nil_iff]
  intro y hy
  have hne := h y hy
  split
  · split
    · next he => exact absurd he hne.1
    · next he => exact absurd he hne.2
    · rfl
  · rfl

theorem codeOf_inj {i k : Nat} (hi : i < 32) (h : codeOf i = codeOf k) : i = k := by
  have hbit := congrArg (fun c => BitVec.getLsbD c i) h
  simp only [codeOf, BitVec.getLsbD_twoPow] at hbit
  simp [hi] at hbit
  exact hbit.2.symm

theorem edges_flatMap {k : Nat} {b : Bool} {f : Nat → List (KeyCode × KeyEvent)}
    (hf : ∀ i, edges k (f i) = if codeOf i = codeOf k then [b] else []) {keys : List Nat} (hnodup : keys.Nodup)
    (hlt : ∀ i ∈ keys, i < 32) : edges k (keys.flatMap f) = if k ∈ keys then [b] else [] := by
  induction keys with
  | nil => rfl
  | cons i keys ih =>
    rw [List.nodup_cons] at hnodup
    rw [List.flatMap_cons, edges_append, hf, ih hnodup.2 (fun j hj => hlt j (List.mem_cons_of_mem _ hj))]
    by_cases heq : codeOf i = codeOf k
    · have hik := codeOf_inj (hlt i List.mem_cons_self) heq
      rw [if_pos heq, if_neg (hik ▸ hnodup.1), if_pos (hik ▸ List.mem_cons_self), List.append_nil]
    · have hik : k ≠ i := fun h => heq (h ▸ rfl)
      rw [if_neg heq, List.nil_append]
      simp only [List.mem_cons, hik, false_or]

theorem edges_upEvents (k : Nat) (long : Bool) (map : KeyCode) :
    edges k (upEvents long (keysOf map)) = if k ∈ keysOf map then [false] else [] := by
  apply edges_flatMap _ (keysOf_nodup map) (fun i hi => (mem_keysOf.1 hi).1)
  intro i
  by_cases h : codeOf i = codeOf k <;> cases long <;> simp [edges, h]

theorem edges_downEvents (k : Nat) (first : Bool) (map : KeyCode) :
    edges k (downEvents first (keysOf map)) = if k ∈ keysOf map then [true] else [] := by
  apply edges_flatMap _ (keysOf_nodup map) (fun i hi => (mem_keysOf.1 hi).1)
  intro i
  by_cases h : codeOf i = codeOf k <;> cases first <;> simp [edges, h]

theorem checkClick_edges (cfg : KeyConfig) (k : Nat) (time : UInt32) (up_new : KeyCode) (s : KeyStatus) :
    edges k (checkClick cfg time up_new s).sent = edges k s.sent ∧
    (checkClick cfg time up_new s).code_down = s.code_down := by
  have hclick : ∀ (l : List (KeyCode × KeyEvent)) (code : KeyCode) (n : UInt8),
      edges k (l ++ [(code, .click n)]) = edges k l := by
    intro l code n
    rw [edges_append, edges_none (l := [_]) (by simp), List.append_nil]
  have hcount : edges k (countClick time up_new s).sent = edges k s.sent ∧
      (countClick time up_new s).code_down = s.code_down := by
    unfold countClick sendKeyEvent
    simp only
    split
    · split
      · exact ⟨hclick _ _ _, rfl⟩
      · exact ⟨rfl, rfl⟩
    · split <;> exact ⟨rfl, rfl⟩
  unfold checkClick endClick sendKeyEvent
  split
  · split
    · exact ⟨(hclick _ _ _).trans hcount.1, hcount.2⟩
    · exact hcount
  · exact ⟨rfl, rfl⟩

theorem checkLongPress_edges (cfg : KeyConfig) (k : Nat) (time : UInt32) (s : KeyStatus) :
    edges k (checkLongPress cfg time s).sent = edges k s.sent ∧
    (checkLongPress cfg time s).code_down = s.code_down := by
  by_cases hlong : s.isLong
  · obtain ⟨event, cnt_repeat, sent, -, hsent, heq⟩ := checkLongPress_long cfg time hlong
    rw [heq]
    refine ⟨?_, rfl⟩
    simp only
    rw [edges_append, edges_none (l := sent), List.append_nil]
    intro y hy
    rcases hsent y hy with he | he <;> simp [he]
  · simp only [checkLongPress, hlong, if_false, sendKeyEvent]
    split
    · split
      · split
        · refine ⟨?_, rfl⟩
          simp only
          rw [edges_append, edges_none (l := [_]) (by simp), List.append_nil]
        · exact ⟨rfl, rfl⟩
      · exact ⟨rfl, rfl⟩
    · exact ⟨rfl, rfl⟩

/-- A run of the handler sends an up event for each key that went up, and then a
down event for each one that went down. -/
theorem handler_edges (k : Nat) (s : KeyStatus) (x : Sample) :
    edges k (halKeyDebounceHandler cfg s x).sent = edges k s.sent ++
      (if k ∈ keysOf (~~~x.code_down &&& s.code_down) then [false] else []) ++
      (if k ∈ keysOf (x.code_down &&& ~~~s.code_down) then [true] else []) ∧
    (halKeyDebounceHandler cfg s x).code_down = x.code_down := by
  have hclick := checkClick_edges cfg k x.time (~~~x.code_down &&& s.code_down) (checkUp x.time x.code_down s)
  have hcode : (checkClick cfg x.time (~~~x.code_down &&& s.code_down) (checkUp x.time x.code_down s)).code_down =
      s.code_down := hclick.2.trans (checkUp_same _ _ _).code_down
  have hlong := checkLongPress_edges cfg k x.time (checkDown x.time x.code_down
    (checkClick cfg x.time (~~~x.code_down &&& s.code_down) (checkUp x.time x.code_down s)))
  rw [halKeyDebounceHandler]
  constructor
  · rw [hlong.1, checkDown_eq]
    simp only
    rw [edges_append, edges_downEvents, hclick.1, hcode, checkUp_eq]
    simp only
    rw [edges_append, edges_upEvents]
  · rw [hlong.2, checkDown_eq]

theorem down_up_alternate (k : Nat) (hk : k < 32) (xs : List Sample) :
    Alternating (edges k (handleAll cfg xs).sent) ∧
    (handleAll cfg xs).code_down.getLsbD k = ((edges k (handleAll cfg xs).sent).length % 2 == 1) := by
  induction xs using List.reverseRecOn with
  | nil => exact ⟨fun i b h => by simp [handleAll, KeyStatus.init, edges] at h, by simp [handleAll, KeyStatus.init, edges]⟩
  | append_singleton xs x ih =>
    obtain ⟨halt, hbit⟩ := ih
    have hstep : handleAll cfg (xs ++ [x]) = halKeyDebounceHandler cfg (handleAll cfg xs) x := by
      rw [handleAll, List.foldl_append, handleAll]
      rfl
    rw [hstep, (handler_edges k _ x).1, (handler_edges k _ x).2]
    generalize handleAll cfg xs = s at *
    have hup : k ∈ keysOf (~~~x.code_down &&& s.code_down) ↔ x.code_down.getLsbD k = false ∧ s.code_down.getLsbD k = true := by
      simp only [mem_keysOf, BitVec.getLsbD_and, BitVec.getLsbD_not, hk, decide_true, Bool.true_and, true_and,
        Bool.and_eq_true, Bool.not_eq_true']
    have hdown : k ∈ keysOf (x.code_down &&& ~~~s.code_down) ↔
        x.code_down.getLsbD k = true ∧ s.code_down.getLsbD k = false := by
      simp only [mem_keysOf, BitVec.getLsbD_and, BitVec.getLsbD_not, hk, decide_true, Bool.true_and, true_and,
        Bool.and_eq_true, Bool.not_eq_true']
    generalize edges k s.sent = l at *
    cases hold : s.code_down.getLsbD k <;> cases hnew : x.code_down.getLsbD k <;> rw [hold] at hbit
    · rw [if_neg (by simp [hup, hold]), if_neg (by simp [hdown, hnew]), List.append_nil, List.append_nil]
      exact ⟨halt, hbit⟩
    · rw [if_neg (by simp [hup, hold]), if_pos (hdown.2 ⟨hnew, hold⟩), List.append_nil]
      have heven : l.length % 2 = 0 := by simpa using hbit
      exact ⟨halt.snoc (by simp [heven]), by simp [Nat.add_mod, heven]⟩
    · rw [if_pos (hup.2 ⟨hnew, hold⟩), if_neg (by simp [hdown, hnew]), List.append_nil]
      have hodd : l.length % 2 = 1 := by simpa using hbit
      exact ⟨halt.snoc (by simp [hodd]), by simp [Nat.add_mod, hodd]⟩
    · rw [if_neg (by simp [hup, hnew]), if_neg (by simp [hdown, hold]), List.append_nil, List.append_nil]
      exact ⟨halt, hbit⟩

theorem PhaseOk.pending {Released : Prop} {current : Option (Group KeyCode UInt32)} {phase : Phase}
    (h : PhaseOk Released s current phase) : Pending s current := by
  cases phase with
  | rest =>
    rcases h with ⟨-, hcurrent, hclick⟩ | ⟨-, -, hpending, -⟩
    · rw [hcurrent]
      exact hclick
    · exact hpending
  | press code since => exact h.2.2.2.2.2
  | long code =>
    obtain ⟨-, -, hcurrent, hclick⟩ := h
    rw [hcurrent]
    exact hclick

/-- The click events of a run are those of the sequences of taps that have
ended, with the number of their taps; each tap belongs to one sequence, in
order; and the down and up events of each key alternate. -/
theorem key_events (cfg : KeyConfig) (xs : List Sample) :
    (StopsAlone cfg.Over maxTaps (marksOf cfg xs) →
      clicksOf (handleAll cfg xs).sent = (sequences cfg (marksOf cfg xs)).closed ∧
      Pending (handleAll cfg xs) (sequences cfg (marksOf cfg xs)).current) ∧
    (sequences cfg (marksOf cfg xs)).members = hits (marksOf cfg xs) ∧
    (sequences cfg (marksOf cfg xs)).Sized maxTaps ∧
    ∀ k < 32, Alternating (edges k (handleAll cfg xs).sent) := by
  refine ⟨fun halone => ?_, members_groups _ _ _, groups_sized _ _ (by decide) _, fun k hk => (down_up_alternate k hk xs).1⟩
  have h := agrees_run xs halone
  exact ⟨h.clicks, h.phase.pending⟩

/-- 16 ticks in a millisecond, with the thresholds that the header gives. -/
def defaultConfig : KeyConfig where
  doubleclick_threshold := 400 * 16
  longpress_threshold := 1500 * 16
  longlongpress_threshold := 5000 * 16
  repeat_count := 500 / 40
  doubleclick_pos := by decide
  longpress_pos := by decide

/-- `n` taps of the power key, 1280 ticks apart, and the key at rest. -/
def quickTaps (n : Nat) : List Sample :=
  ((List.range n).flatMap fun i => [⟨.ofNat (1280 * i), 1⟩, ⟨.ofNat (1280 * i + 640), 0⟩]) ++
    [⟨.ofNat (1280 * n + 6400), 0⟩]

theorem key_events_two :
    StopsAlone defaultConfig.Over maxTaps (marksOf defaultConfig (quickTaps 2)) ∧
    clicksOf (handleAll defaultConfig (quickTaps 2)).sent = [(1, 2)] := by
  have halone : StopsAlone defaultConfig.Over maxTaps (marksOf defaultConfig (quickTaps 2)) := by
    intro before code after h
    have hmem : Mark.stop code ∈ marksOf defaultConfig (quickTaps 2) := by rw [h]; simp
    have hmarks : marksOf defaultConfig (quickTaps 2) =
        [.idle 0, .hit 1 640, .idle 640, .idle 1280, .hit 1 1920, .idle 1920, .idle 8960] := by decide +kernel
    rw [hmarks] at hmem
    simp at hmem
  refine ⟨halone, ?_⟩
  rw [((key_events defaultConfig (quickTaps 2)).1 halone).1]
  decide +kernel

/-- Six taps in quick succession give two click events. -/
theorem six_taps_cut :
    hits (marksOf defaultConfig (quickTaps 6)) = List.replicate 6 1 ∧
    (groups defaultConfig.Over 7 (marksOf defaultConfig (quickTaps 6))).closed = [(1, 6)] ∧
    clicksOf (handleAll defaultConfig (quickTaps 6)).sent = [(1, 5), (1, 1)] := by
  decide +kernel

-- A tap, a long press and, much later, a tap: the first tap is counted with the last.
example : clicksOf (handleAll defaultConfig
    [⟨0, 1⟩, ⟨640, 0⟩, ⟨1280, 1⟩, ⟨32000, 1⟩, ⟨32640, 0⟩, ⟨640000, 1⟩, ⟨640640, 0⟩, ⟨648000, 0⟩]).sent = [(1, 2)] := by
  decide +kernel

end Hal.Key
