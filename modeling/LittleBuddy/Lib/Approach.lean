import Mathlib.Order.Interval.Set.UnorderedInterval
import Mathlib.Tactic.Common
/-!
# Values that are moved by one

A value that is moved towards a target by at most one at a time.
-/
open Set

namespace Approach

/-- From `x` by at most one towards `t`, and not past it. -/
def Nears (t x y : Int) : Prop := y ∈ uIcc x t ∧ (y - x).natAbs ≤ 1

/-- One further towards `t`, unless it is reached. -/
def toward (t x : Int) : Int := if x < t then x + 1 else if t < x then x - 1 else x

variable {t x y start : Int}

theorem mem_uIcc_iff : y ∈ uIcc x t ↔ x ≤ y ∧ y ≤ t ∨ t ≤ y ∧ y ≤ x := mem_uIcc

theorem toward_nears (t x : Int) : Nears t x (toward t x) := by
  rw [Nears, mem_uIcc_iff, toward]
  split
  · omega
  · split
    · omega
    · omega

theorem natAbs_sub_toward (t x : Int) : (t - toward t x).natAbs = (t - x).natAbs - 1 := by
  rw [toward]
  split
  · omega
  · split
    · omega
    · omega

/-- The target itself, from at most one away. -/
theorem nears_target (h : (t - x).natAbs ≤ 1) : Nears t x t := by
  rw [Nears, mem_uIcc_iff]
  exact ⟨by omega, h⟩

/-- A value that is moved towards its target stays between where it started and the target. -/
theorem Nears.within (h : Nears t x y) (hx : x ∈ uIcc start t) : y ∈ uIcc start t := by
  rw [Nears, mem_uIcc_iff] at h
  rw [mem_uIcc_iff] at hx ⊢
  omega

end Approach
