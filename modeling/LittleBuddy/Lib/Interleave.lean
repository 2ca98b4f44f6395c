import Mathlib.Data.Nat.Basic
import Mathlib.Tactic.Common
import Mathlib.Tactic.LinearCombination
import Mathlib.Tactic.Ring
/-!
# Interleaved lanes

An array of lanes side by side that is filled piece by piece. A piece has a part
in every lane, at the same place there, and serves the lanes in turn, a burst
each: the items of a piece go over the lanes row by row, whereas the array keeps
each lane together.
-/

namespace Interleave

/-- A division with a remainder, put together again. -/
theorem mul_add_div {a b n : Nat} (hb : b < n) : (a * n + b) / n = a := by
  rw [Nat.mul_comm, Nat.mul_add_div (by omega), Nat.div_eq_of_lt hb, Nat.add_zero]

theorem mul_add_mod {a b n : Nat} (hb : b < n) : (a * n + b) % n = b := by
  rw [Nat.mul_comm, Nat.mul_add_mod, Nat.mod_eq_of_lt hb]

theorem mul_add_lt {a b m n : Nat} (ha : a < m) (hb : b < n) : a * n + b < m * n := by
  calc a * n + b < a * n + n := by omega
    _ = (a + 1) * n := by ring
    _ ≤ m * n := Nat.mul_le_mul_right n ha

theorem mul_add_inj {a b a' b' n : Nat} (hb : b < n) (hb' : b' < n) (he : a * n + b = a' * n + b') : a = a' ∧ b = b' := by
  constructor
  · rw [← mul_add_div (a := a) hb, he, mul_add_div hb']
  · rw [← mul_add_mod (a := a) hb, he, mul_add_mod hb']

/-- The next number is in the same group, or the first of the next one. -/
theorem succ_group {n : Nat} (t : Nat) (hn : 0 < n) :
    ((t + 1) % n ≠ 0 ∧ (t + 1) / n = t / n ∧ (t + 1) % n = t % n + 1) ∨
    ((t + 1) % n = 0 ∧ (t + 1) / n = t / n + 1 ∧ t % n + 1 = n) := by
  have hlt := Nat.mod_lt t hn
  have hsplit : t + 1 = t / n * n + (t % n + 1) := by
    have := Nat.div_add_mod' t n
    omega
  rcases Nat.lt_or_ge (t % n + 1) n with h | h
  · left
    have hdiv := mul_add_div (a := t / n) h
    have hmod := mul_add_mod (a := t / n) h
    rw [← hsplit] at hdiv hmod
    exact ⟨by omega, hdiv, hmod⟩
  · right
    have hend : t % n + 1 = n := by omega
    have hnext : t + 1 = (t / n + 1) * n + 0 := by
      rw [hsplit, hend]
      ring
    have hdiv := mul_add_div (a := t / n + 1) hn
    have hmod := mul_add_mod (a := t / n + 1) hn
    rw [← hnext] at hdiv hmod
    exact ⟨hmod, hdiv, hend⟩

end Interleave

/-- Lanes that are served in turn, a burst each, by pieces of some rows. -/
structure Interleave where
  lanes : Nat
  pieces : Nat
  burst : Nat
  rows : Nat
  lanes_pos : 0 < lanes
  burst_pos : 0 < burst

namespace Interleave

variable (l : Interleave) {l' : Interleave} {i i' t t' a : Nat}

/-- The part of a piece in a lane. -/
def width : Nat := l.rows * l.burst

/-- The items of a piece. -/
def items : Nat := l.lanes * l.width

/-- A lane of the array. -/
def stride : Nat := l.pieces * l.width

/-- The lane of item `t` of a piece. -/
def lane (t : Nat) : Nat := t / l.burst % l.lanes

/-- The place of item `t` in its part of the lane. -/
def inner (t : Nat) : Nat := t / l.burst / l.lanes * l.burst + t % l.burst

/-- The place of item `t` of piece `i` in the array. -/
def place (i t : Nat) : Nat := l.lane t * l.stride + (i * l.width + l.inner t)

/-- The item of a lane and a place in its part. -/
def item (c u : Nat) : Nat := (u / l.burst * l.lanes + c) * l.burst + u % l.burst

variable {l}

theorem lane_lt : l.lane t < l.lanes := Nat.mod_lt _ l.lanes_pos

theorem inner_lt (ht : t < l.items) : l.inner t < l.width := by
  apply mul_add_lt _ (Nat.mod_lt t l.burst_pos)
  rw [Nat.div_div_eq_div_mul]
  apply Nat.div_lt_of_lt_mul
  calc t < l.lanes * (l.rows * l.burst) := ht
    _ = l.burst * l.lanes * l.rows := by ring

theorem part_lt (hi : i < l.pieces) (ht : t < l.items) : i * l.width + l.inner t < l.stride :=
  mul_add_lt hi (inner_lt ht)

theorem place_lt (hi : i < l.pieces) (ht : t < l.items) : l.place i t < l.lanes * l.stride :=
  mul_add_lt lane_lt (part_lt hi ht)

theorem item_lane_inner (t : Nat) : l.item (l.lane t) (l.inner t) = t := by
  have hr := Nat.mod_lt t l.burst_pos
  unfold item inner lane
  rw [mul_add_div hr, mul_add_mod hr, Nat.div_add_mod', Nat.div_add_mod']

theorem lane_item {c u : Nat} (hc : c < l.lanes) : l.lane (l.item c u) = c := by
  unfold lane item
  rw [mul_add_div (Nat.mod_lt u l.burst_pos), mul_add_mod hc]

theorem inner_item {c u : Nat} (hc : c < l.lanes) : l.inner (l.item c u) = u := by
  have hr := Nat.mod_lt u l.burst_pos
  unfold inner item
  rw [mul_add_div hr, mul_add_mod hr, mul_add_div hc, Nat.div_add_mod']

theorem item_lt {c u : Nat} (hc : c < l.lanes) (hu : u < l.width) : l.item c u < l.items := by
  have hrow : u / l.burst < l.rows := Nat.div_lt_of_lt_mul (by rwa [Nat.mul_comm])
  calc l.item c u < l.rows * l.lanes * l.burst := mul_add_lt (mul_add_lt hrow hc) (Nat.mod_lt u l.burst_pos)
    _ = l.items := by
      unfold items width
      ring

/-- Every place of the array is that of an item. -/
theorem exists_place (ha : a < l.lanes * l.stride) : ∃ i t, i < l.pieces ∧ t < l.items ∧ l.place i t = a := by
  have hstride : 0 < l.stride := by
    apply Nat.pos_of_ne_zero
    intro h
    rw [h] at ha
    omega
  have hwidth : 0 < l.width := by
    apply Nat.pos_of_ne_zero
    intro h
    rw [stride, h] at hstride
    omega
  have hlane : a / l.stride < l.lanes := Nat.div_lt_of_lt_mul (by rwa [Nat.mul_comm])
  have hpiece : a % l.stride / l.width < l.pieces := by
    apply Nat.div_lt_of_lt_mul
    rw [Nat.mul_comm]
    exact Nat.mod_lt _ hstride
  refine ⟨_, _, hpiece, item_lt hlane (Nat.mod_lt (a % l.stride) hwidth), ?_⟩
  rw [place, lane_item hlane, inner_item hlane, Nat.div_add_mod', Nat.div_add_mod']

/-- A place of the array is that of one item only. -/
theorem place_inj (hi : i < l.pieces) (ht : t < l.items) (hi' : i' < l.pieces) (ht' : t' < l.items)
    (he : l.place i t = l.place i' t') : i = i' ∧ t = t' := by
  obtain ⟨hlane, hpart⟩ := mul_add_inj (part_lt hi ht) (part_lt hi' ht') he
  obtain ⟨hpiece, hinner⟩ := mul_add_inj (inner_lt ht) (inner_lt ht') hpart
  refine ⟨hpiece, ?_⟩
  rw [← item_lane_inner (l := l) t, ← item_lane_inner (l := l) t', hlane, hinner]

/-! ## Walking over a piece -/

/-- An address that is one further behind every item, and moves by `x` behind a
burst, but by `y` behind the last burst of a row. -/
def walk (burst lanes : Nat) (x y : Int) : Nat → Int
  | 0 => 0
  | t + 1 =>
    walk burst lanes x y t + 1 +
      if (t + 1) % burst ≠ 0 then 0
      else if (t + 1) / burst % lanes ≠ 0 then x
      else y

/-- A walk goes on by `x` behind the bursts, except for those at the end of a row. -/
theorem walk_eq_rows {burst lanes : Nat} (hburst : 0 < burst) (hlanes : 0 < lanes) (x y : Int) (t : Nat) :
    walk burst lanes x y t = t + (t / burst - t / burst / lanes : Int) * x + (t / burst / lanes : Nat) * y := by
  induction t with
  | zero => simp [walk]
  | succ t ih =>
    rw [walk, ih]
    obtain ⟨hne, hdiv, -⟩ | ⟨hzero, hdiv, -⟩ := succ_group t hburst
    · have hdiv' : ((t + 1 : Nat) : Int) / burst = t / burst := by exact_mod_cast hdiv
      rw [if_pos hne, hdiv, hdiv']
      push_cast
      ring
    · -- behind a burst: in the row or at its end
      have hdiv' : ((t + 1 : Nat) : Int) / burst = ((t / burst + 1 : Nat) : Int) := by exact_mod_cast hdiv
      rw [if_neg (not_not.2 hzero), hdiv, hdiv']
      obtain ⟨hne, hrow, -⟩ | ⟨hend, hrow, -⟩ := succ_group (t / burst) hlanes
      · have hrow' : ((t / burst + 1 : Nat) : Int) / lanes = t / burst / lanes := by exact_mod_cast hrow
        rw [if_pos hne, hrow, hrow']
        push_cast
        ring
      · have hrow' : ((t / burst + 1 : Nat) : Int) / lanes = t / burst / lanes + 1 := by exact_mod_cast hrow
        rw [if_neg (not_not.2 hend), hrow, hrow']
        push_cast
        ring

/-- Where the second row begins. -/
theorem walk_row {burst lanes : Nat} (hburst : 0 < burst) (hlanes : 0 < lanes) (x y : Int) :
    walk burst lanes x y (lanes * burst) = lanes * burst + (lanes - 1) * x + y := by
  have hbursts : lanes * burst / burst = lanes := Nat.mul_div_cancel _ hburst
  have hbursts' : ((lanes * burst : Nat) : Int) / burst = lanes := by exact_mod_cast hbursts
  have hrow : (lanes : Int) / lanes = 1 := Int.ediv_self (by omega)
  rw [walk_eq_rows hburst hlanes, hbursts, hbursts', hrow, Nat.div_self hlanes]
  push_cast
  ring

/-- Moving to the next lane and back to the first one, the walk meets the items where they lie. -/
theorem walk_eq (t : Nat) :
    walk l.burst l.lanes (l.stride - l.burst) (-(l.stride * (l.lanes - 1))) t = l.lane t * l.stride + l.inner t := by
  rw [walk_eq_rows l.burst_pos l.lanes_pos]
  -- the items, the bursts and the rows in front of item `t`
  have hitem : (t : Int) = (t / l.burst : Nat) * l.burst + (t % l.burst : Nat) := by
    exact_mod_cast (Nat.div_add_mod' t l.burst).symm
  have hbursts : ((t / l.burst : Nat) : Int) = (t / l.burst / l.lanes : Nat) * l.lanes + (t / l.burst % l.lanes : Nat) := by
    exact_mod_cast (Nat.div_add_mod' (t / l.burst) l.lanes).symm
  unfold lane inner
  push_cast at hitem hbursts ⊢
  linear_combination hitem + (l.stride : Int) * hbursts

end Interleave
