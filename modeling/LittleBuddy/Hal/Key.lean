import Mathlib.Data.BitVec
import Mathlib.Tactic.Common
/-!
# Key events

The second half of `hal_key_debounce_handler` of `platform/hal/hal_key.c`: what
is made of the time and of `code_down`, the keys that the debouncing has found
down. Times are `uint32_t` and wrap.
-/

namespace Hal.Key

/-- `HAL_KEY_CODE_T`: a bit for each key. -/
abbrev KeyCode := BitVec 32

/-- The code of the key of a bit. -/
def codeOf (index : Nat) : KeyCode := BitVec.twoPow 32 index

/-- `HAL_KEY_EVENT_T`, as far as it is used here. `click n` is
`HAL_KEY_EVENT_CLICK + n`. -/
inductive KeyEvent where
  | none | down | firstDown | continuedDown | up | upAfterLongPress | longPress | longLongPress
  | click (n : UInt8) | keyRepeat
  deriving DecidableEq

/-- The thresholds, in ticks. `repeat_count` is `KEY_LONGPRESS_REPEAT_THRESHOLD /
KEY_CHECKER_INTERVAL`. -/
structure KeyConfig where
  doubleclick_threshold : UInt32
  longpress_threshold : UInt32
  longlongpress_threshold : UInt32
  repeat_count : UInt8
  doubleclick_pos : 0 < doubleclick_threshold
  longpress_pos : 0 < longpress_threshold

/-- `MAX_KEY_CLICK_COUNT`, `HAL_KEY_EVENT_RAMPAGECLICK - HAL_KEY_EVENT_CLICK`. -/
abbrev maxKeyClickCount : UInt8 := 4

/-- `HAL_KEY_STATUS_T`, with what was given to `key_detected_callback` so far. -/
structure KeyStatus where
  code_down : KeyCode
  code_ready : KeyCode
  code_click : KeyCode
  event : KeyEvent
  time_updown : UInt32
  time_click : UInt32
  cnt_repeat : UInt8
  cnt_click : UInt8
  sent : List (KeyCode × KeyEvent)

/-- `key_status` after `hal_key_open`. -/
def KeyStatus.init : KeyStatus := ⟨0, 0, 0, .none, 0, 0, 0, 0, []⟩

def sendKeyEvent (code : KeyCode) (event : KeyEvent) (s : KeyStatus) : KeyStatus :=
  { s with sent := s.sent ++ [(code, event)] }

/-- The bits that the loops over `map` visit, in their order. -/
def keysOf (map : KeyCode) : List Nat := (List.range 32).filter fun index => map.getLsbD index

/-- `event` is `LONGPRESS` or `LONGLONGPRESS`. -/
def KeyStatus.isLong (s : KeyStatus) : Prop := s.event = .longPress ∨ s.event = .longLongPress

instance (s : KeyStatus) : Decidable s.isLong := inferInstanceAs (Decidable (_ ∨ _))

variable (cfg : KeyConfig) (time : UInt32)

/-- The loop over the newly up keys, for one of them. -/
def keyUp (s : KeyStatus) (index : Nat) : KeyStatus :=
  let s := sendKeyEvent (codeOf index) .up s
  let s := if s.isLong then sendKeyEvent (codeOf index) .upAfterLongPress s else s
  { s with time_updown := time }

/-- Check newly up keys. -/
def checkUp (code_down : KeyCode) (s : KeyStatus) : KeyStatus :=
  let up_new := ~~~code_down &&& s.code_down
  let s := (keysOf up_new).foldl (keyUp time) s
  if up_new ≠ 0 then
    if s.isLong then
      if code_down &&& s.code_ready = 0 then { s with event := .none } else s
    else if s.event = .down then { s with event := .up }
    else s
  else s

/-- The click handling for the tap: the first one of its code, or one more. -/
def countClick (up_new : KeyCode) (s : KeyStatus) : KeyStatus :=
  if s.code_click = 0 ∨ s.code_click ≠ s.code_ready then
    let s := if s.code_click ≠ 0 then sendKeyEvent s.code_click (.click s.cnt_click) s else s
    { s with
      code_click := s.code_ready
      cnt_click := 0
      time_click := time }
  else if up_new ≠ 0 ∧ up_new ||| s.code_down = s.code_click then
    { s with
      cnt_click := s.cnt_click + 1
      time_click := time }
  else s

/-- The end of the click handling. -/
def endClick (s : KeyStatus) : KeyStatus :=
  if time - s.time_click ≥ cfg.doubleclick_threshold ∨ s.cnt_click ≥ maxKeyClickCount then
    let s := sendKeyEvent s.code_click (.click s.cnt_click) s
    { s with
      code_click := 0
      cnt_click := 0
      event := .none }
  else s

/-- The click handling, with `up_new` as `checkUp` has found it. -/
def checkClick (up_new : KeyCode) (s : KeyStatus) : KeyStatus :=
  if s.event = .up then endClick cfg time (countClick time up_new s) else s

/-- The loop over the newly down keys, for one of them. -/
def keyDown (code_down : KeyCode) (s : KeyStatus) (index : Nat) : KeyStatus :=
  let s := sendKeyEvent (codeOf index) .down s
  let s := sendKeyEvent (codeOf index) (if s.event = .none then .firstDown else .continuedDown) s
  let s := if s.event = .none ∨ s.event = .down ∨ s.event = .up then { s with code_ready := code_down } else s
  { s with time_updown := time }

/-- Update `code_down`, and check newly down keys. -/
def checkDown (code_down : KeyCode) (s : KeyStatus) : KeyStatus :=
  let down_new := code_down &&& ~~~s.code_down
  let s := { s with code_down := code_down }
  let s := (keysOf down_new).foldl (keyDown time code_down) s
  if down_new ≠ 0 then
    if s.event = .none ∨ s.event = .up then { s with event := .down } else s
  else s

/-- The count of a long press that is held. -/
def countRepeat (s : KeyStatus) : KeyStatus :=
  let s := { s with cnt_repeat := s.cnt_repeat + 1 }
  if s.cnt_repeat = cfg.repeat_count then sendKeyEvent s.code_ready .keyRepeat { s with cnt_repeat := 0 } else s

/-- Long presses. -/
def checkLongPress (s : KeyStatus) : KeyStatus :=
  if s.code_down &&& s.code_ready = s.code_ready then
    if s.event = .down then
      if time - s.time_updown ≥ cfg.longpress_threshold then
        sendKeyEvent s.code_ready .longPress { s with
          cnt_repeat := 0
          event := .longPress }
      else s
    else if s.isLong then
      let s := countRepeat cfg s
      if s.event = .longPress ∧ time - s.time_updown ≥ cfg.longlongpress_threshold then
        sendKeyEvent s.code_ready .longLongPress { s with event := .longLongPress }
      else s
    else s
  else s

/-- What one run of the handler found. -/
structure Sample where
  time : UInt32
  code_down : KeyCode

/-- `hal_key_debounce_handler`, behind the debouncing. -/
def halKeyDebounceHandler (s : KeyStatus) (x : Sample) : KeyStatus :=
  let up_new := ~~~x.code_down &&& s.code_down
  checkLongPress cfg x.time
    (checkDown x.time x.code_down (checkClick cfg x.time up_new (checkUp x.time x.code_down s)))

/-- The handler, run after run. -/
def handleAll (xs : List Sample) : KeyStatus := xs.foldl (halKeyDebounceHandler cfg) .init

/-! ## Bits -/

theorem exists_bit {c : KeyCode} (h : c ≠ 0) : ∃ i, i < 32 ∧ c.getLsbD i = true := by
  refine Classical.byContradiction fun hno => h (BitVec.eq_of_getLsbD_eq fun i hi => ?_)
  cases hc : c.getLsbD i with
  | false => simp
  | true => exact absurd ⟨i, hi, hc⟩ hno

theorem mem_keysOf {map : KeyCode} {i : Nat} : i ∈ keysOf map ↔ i < 32 ∧ map.getLsbD i = true := by
  simp [keysOf]

theorem keysOf_eq_nil {map : KeyCode} : keysOf map = [] ↔ map = 0 := by
  constructor
  · intro h
    refine Classical.byContradiction fun hne => ?_
    obtain ⟨i, hi, hbit⟩ := exists_bit hne
    have := mem_keysOf.2 ⟨hi, hbit⟩
    rw [h] at this
    simp at this
  · rintro rfl
    simp [keysOf]

theorem keysOf_nodup (map : KeyCode) : (keysOf map).Nodup := List.nodup_range.filter _

theorem up_or_down (d old : KeyCode) : (~~~d &&& old) ||| old = old := by
  apply BitVec.eq_of_getLsbD_eq
  intro i _
  simp only [BitVec.getLsbD_or, BitVec.getLsbD_and]
  cases old.getLsbD i <;> simp

/-- A key that was up and is not newly down, is up. -/
theorem up_of_no_down {d old : KeyCode} (hdown : d &&& ~~~old = 0) {i : Nat} (h : old.getLsbD i = false) :
    d.getLsbD i = false := by
  cases hd : d.getLsbD i with
  | false => rfl
  | true =>
    have hi : i < 32 := BitVec.lt_of_getLsbD hd
    have hbit := congrArg (fun c => BitVec.getLsbD c i) hdown
    simp only [BitVec.getLsbD_and, BitVec.getLsbD_not, hi, hd, h, decide_true, Bool.not_false, Bool.and_self] at hbit
    exact hbit.trans BitVec.getLsbD_zero

theorem eq_of_no_change {d old : KeyCode} (hup : ~~~d &&& old = 0) (hdown : d &&& ~~~old = 0) : d = old := by
  rw [BitVec.and_comm] at hup
  apply BitVec.eq_of_getLsbD_eq
  intro i _
  cases hold : old.getLsbD i with
  | false => exact up_of_no_down hdown hold
  | true =>
    cases hd : d.getLsbD i with
    | false => rw [← hold]; exact (up_of_no_down hup hd).symm
    | true => rfl

/-- Some key of `ready` is up in `d`. -/
def Missing (d ready : KeyCode) : Prop := ∃ i, ready.getLsbD i = true ∧ d.getLsbD i = false

theorem Missing.ne {d ready : KeyCode} (h : Missing d ready) : d ≠ ready := by
  rintro rfl
  obtain ⟨i, h₁, h₂⟩ := h
  rw [h₁] at h₂
  cases h₂

theorem missing_of_up {d old : KeyCode} (h : ~~~d &&& old ≠ 0) : Missing d old := by
  obtain ⟨i, hi, hbit⟩ := exists_bit h
  simp only [BitVec.getLsbD_and, BitVec.getLsbD_not, hi, decide_true, Bool.true_and, Bool.and_eq_true,
    Bool.not_eq_true'] at hbit
  exact ⟨i, hbit.2, hbit.1⟩

theorem Missing.of_no_down {d old ready : KeyCode} (h : Missing old ready) (hdown : d &&& ~~~old = 0) :
    Missing d ready := by
  obtain ⟨i, h₁, h₂⟩ := h
  exact ⟨i, h₁, up_of_no_down hdown h₂⟩

/-! ## What the checks do -/

/-- What is sent for keys that are newly up. -/
def upEvents (long : Bool) (keys : List Nat) : List (KeyCode × KeyEvent) :=
  keys.flatMap fun index =>
    (codeOf index, .up) :: if long then [(codeOf index, .upAfterLongPress)] else []

/-- What is sent for keys that are newly down. -/
def downEvents (first : Bool) (keys : List Nat) : List (KeyCode × KeyEvent) :=
  keys.flatMap fun index => [(codeOf index, .down), (codeOf index, if first then .firstDown else .continuedDown)]

theorem foldl_keyUp (keys : List Nat) (s : KeyStatus) : keys.foldl (keyUp time) s =
    { s with
      sent := s.sent ++ upEvents s.isLong keys
      time_updown := if keys = [] then s.time_updown else time } := by
  induction keys generalizing s with
  | nil => simp [upEvents]
  | cons index keys ih =>
    rw [List.foldl_cons, ih]
    by_cases hlong : s.isLong
    · have hlong' := hlong
      unfold KeyStatus.isLong at hlong'
      simp [keyUp, sendKeyEvent, upEvents, KeyStatus.isLong, hlong']
    · have hlong' := hlong
      unfold KeyStatus.isLong at hlong'
      simp [keyUp, sendKeyEvent, upEvents, KeyStatus.isLong, hlong']

theorem checkUp_eq (code_down : KeyCode) (s : KeyStatus) : checkUp time code_down s =
    { s with
      sent := s.sent ++ upEvents s.isLong (keysOf (~~~code_down &&& s.code_down))
      time_updown := if ~~~code_down &&& s.code_down = 0 then s.time_updown else time
      event :=
        if ~~~code_down &&& s.code_down = 0 then s.event
        else if s.isLong then if code_down &&& s.code_ready = 0 then .none else s.event
        else if s.event = .down then .up
        else s.event } := by
  simp only [checkUp, foldl_keyUp, keysOf_eq_nil, KeyStatus.isLong]
  by_cases hup : ~~~code_down &&& s.code_down = 0
  · rw [if_neg (fun h => h hup), if_pos hup, if_pos hup]
  · rw [if_pos hup, if_neg hup, if_neg hup]
    split
    · split <;> rfl
    · split <;> rfl

theorem checkUp_none {code_down : KeyCode} {s : KeyStatus} (h : ~~~code_down &&& s.code_down = 0) :
    checkUp time code_down s = s := by
  rw [checkUp_eq]
  simp [h, keysOf_eq_nil.2, upEvents]

theorem checkUp_rest {code_down : KeyCode} {s : KeyStatus} (hdown : s.event ≠ .down) (hlong : ¬ s.isLong) :
    checkUp time code_down s = { s with
      sent := s.sent ++ upEvents s.isLong (keysOf (~~~code_down &&& s.code_down))
      time_updown := if ~~~code_down &&& s.code_down = 0 then s.time_updown else time } := by
  rw [checkUp_eq]
  simp only [hdown, hlong, if_false, ite_self]

theorem checkClick_skip {up_new : KeyCode} {s : KeyStatus} (h : s.event ≠ .up) :
    checkClick cfg time up_new s = s := by rw [checkClick, if_neg h]

theorem countClick_wait {up_new : KeyCode} {s : KeyStatus} (hclick : s.code_click ≠ 0)
    (hready : s.code_click = s.code_ready) (hup : up_new ||| s.code_down ≠ s.code_click) :
    countClick time up_new s = s := by
  rw [countClick, if_neg (fun h => h.elim hclick (fun hne => hne hready)), if_neg (fun h => hup h.2)]

theorem countClick_again {up_new : KeyCode} {s : KeyStatus} (hclick : s.code_click ≠ 0)
    (hready : s.code_click = s.code_ready) (hup : up_new ≠ 0) (hdown : up_new ||| s.code_down = s.code_click) :
    countClick time up_new s = { s with
      cnt_click := s.cnt_click + 1
      time_click := time } := by
  rw [countClick, if_neg (fun h => h.elim hclick (fun hne => hne hready)), if_pos ⟨hup, hdown⟩]

theorem countClick_first {up_new : KeyCode} {s : KeyStatus} (hclick : s.code_click = 0) :
    countClick time up_new s = { s with
      code_click := s.code_ready
      cnt_click := 0
      time_click := time } := by
  rw [countClick, if_pos (.inl hclick), if_neg (fun hne => hne hclick)]

theorem countClick_other {up_new : KeyCode} {s : KeyStatus} (hclick : s.code_click ≠ 0)
    (hready : s.code_click ≠ s.code_ready) : countClick time up_new s = { s with
      sent := s.sent ++ [(s.code_click, .click s.cnt_click)]
      code_click := s.code_ready
      cnt_click := 0
      time_click := time } := by
  rw [countClick, if_pos (.inr hready), if_pos hclick]
  rfl

/-- The state in which a key that goes down is a press. -/
def KeyStatus.isPress (s : KeyStatus) : Prop := s.event = .none ∨ s.event = .down ∨ s.event = .up

instance (s : KeyStatus) : Decidable s.isPress := inferInstanceAs (Decidable (_ ∨ _))

theorem foldl_keyDown (code_down : KeyCode) (keys : List Nat) (s : KeyStatus) :
    keys.foldl (keyDown time code_down) s =
    { s with
      sent := s.sent ++ downEvents (s.event = .none) keys
      code_ready := if keys ≠ [] ∧ s.isPress then code_down else s.code_ready
      time_updown := if keys = [] then s.time_updown else time } := by
  induction keys generalizing s with
  | nil => simp [downEvents]
  | cons index keys ih =>
    rw [List.foldl_cons, ih]
    by_cases hpress : s.isPress
    · have hpress' := hpress
      unfold KeyStatus.isPress at hpress'
      simp [keyDown, sendKeyEvent, downEvents, KeyStatus.isPress, hpress']
      by_cases he : s.event = .none <;> simp [he]
    · have hpress' := hpress
      unfold KeyStatus.isPress at hpress'
      simp [keyDown, sendKeyEvent, downEvents, KeyStatus.isPress, hpress']
      by_cases he : s.event = .none <;> simp [he]

theorem checkDown_eq (code_down : KeyCode) (s : KeyStatus) : checkDown time code_down s =
    { s with
      code_down := code_down
      sent := s.sent ++ downEvents (s.event = .none) (keysOf (code_down &&& ~~~s.code_down))
      code_ready := if code_down &&& ~~~s.code_down ≠ 0 ∧ s.isPress then code_down else s.code_ready
      time_updown := if code_down &&& ~~~s.code_down = 0 then s.time_updown else time
      event := if code_down &&& ~~~s.code_down ≠ 0 ∧ s.isPress then .down else s.event } := by
  simp only [checkDown, foldl_keyDown, ne_eq, keysOf_eq_nil, KeyStatus.isPress]
  by_cases hdown : code_down &&& ~~~s.code_down = 0
  · simp only [hdown, not_true_eq_false, false_and, if_false, if_true]
  · simp only [hdown, not_false_eq_true, true_and, if_false, if_true]
    cases hevent : s.event <;> simp

theorem countRepeat_eq (s : KeyStatus) : ∃ cnt_repeat sent, (∀ x ∈ sent, x.2 = .keyRepeat) ∧
    countRepeat cfg s = { s with
      cnt_repeat := cnt_repeat
      sent := s.sent ++ sent } := by
  unfold countRepeat sendKeyEvent
  simp only
  split
  · exact ⟨0, [(s.code_ready, .keyRepeat)], by simp, rfl⟩
  · exact ⟨s.cnt_repeat + 1, [], by simp, by simp⟩

/-- A long press that is held stays one, and sends nothing but what belongs to
it. -/
theorem checkLongPress_long {s : KeyStatus} (h : s.isLong) : ∃ event cnt_repeat sent,
    (event = .longPress ∨ event = .longLongPress) ∧
    (∀ x ∈ sent, x.2 = .keyRepeat ∨ x.2 = .longLongPress) ∧
    checkLongPress cfg time s = { s with
      event := event
      cnt_repeat := cnt_repeat
      sent := s.sent ++ sent } := by
  have hdown : s.event ≠ .down := by
    intro hd
    rcases h with he | he <;> rw [hd] at he <;> cases he
  simp only [checkLongPress, hdown, h, if_true, if_false]
  split
  · obtain ⟨cnt_repeat, sent, hsent, heq⟩ := countRepeat_eq cfg s
    rw [heq]
    simp only [sendKeyEvent]
    split
    · refine ⟨.longLongPress, cnt_repeat, sent ++ [(s.code_ready, .longLongPress)], .inr rfl, ?_, by simp⟩
      intro x hx
      rcases List.mem_append.1 hx with hx | hx
      · exact .inl (hsent x hx)
      · rw [List.mem_singleton.1 hx]
        exact .inr rfl
    · exact ⟨s.event, cnt_repeat, sent, h, fun x hx => .inl (hsent x hx), rfl⟩
  · exact ⟨s.event, s.cnt_repeat, [], h, by simp, by simp⟩

theorem checkLongPress_rest {s : KeyStatus} (hdown : s.event ≠ .down) (hlong : ¬ s.isLong) :
    checkLongPress cfg time s = s := by
  simp only [checkLongPress, hdown, hlong, if_false, ite_self]

end Hal.Key
