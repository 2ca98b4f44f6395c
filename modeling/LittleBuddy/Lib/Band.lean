import Mathlib.Algebra.Order.Ring.Nat
import Mathlib.Data.List.Basic
import Mathlib.Tactic.Common
/-!
# Pieces on a band

A store of `cap` bytes that is filled round and round with pieces of different
lengths, none of which runs over the end of the store. The pieces lie one behind
the other on an endless band that is wound round the store: the place of the
band position `v` is `v % cap`. As long as the band in use is shorter than the
store no two pieces meet.
-/

namespace Band

/-- The pieces (place and length) from the band position `v` to `hi`. -/
inductive Wound (cap : Nat) : Nat → List (Nat × Nat) → Nat → Prop
  | one {v len} : v % cap + len ≤ cap → Wound cap v [(v % cap, len)] (v + len)
  | cons {v w hi len l} : v % cap + len ≤ cap → v + len ≤ w → Wound cap w l hi →
      Wound cap v ((v % cap, len) :: l) hi

/-- Pieces on less of the band than would go once round the store. -/
def Laid (cap : Nat) (l : List (Nat × Nat)) : Prop := l = [] ∨ ∃ v hi, Wound cap v l hi ∧ hi < v + cap

/-- Two pieces that have no byte in common. -/
def Apart (p q : Nat × Nat) : Prop := p.1 + p.2 ≤ q.1 ∨ q.1 + q.2 ≤ p.1

variable {cap v w hi pos len : Nat} {p : Nat × Nat} {l : List (Nat × Nat)}

theorem Wound.le (h : Wound cap v l hi) : v ≤ hi := by
  induction h with
  | one => exact Nat.le_add_right ..
  | cons _ hle _ ih => omega

theorem Wound.inside (h : Wound cap v l hi) : ∀ p ∈ l, p.1 + p.2 ≤ cap := by
  induction h with
  | one hfit => simpa using hfit
  | cons hfit _ _ ih => simpa using ⟨hfit, fun a b hab => ih (a, b) hab⟩

theorem Wound.place_lt (h : Wound cap v l hi) (hcap : 0 < cap) : ∀ p ∈ l, p.1 < cap := by
  induction h with
  | one => simpa using Nat.mod_lt _ hcap
  | cons _ _ _ ih => simpa using ⟨Nat.mod_lt _ hcap, fun a b hab => ih (a, b) hab⟩

theorem Wound.head (h : Wound cap v l hi) : ∃ len rest, l = (v % cap, len) :: rest := by
  cases h with
  | one => exact ⟨_, _, rfl⟩
  | cons => exact ⟨_, _, rfl⟩

theorem Wound.hi_mod (h : Wound cap v l hi) : ∃ q ∈ l.getLast?, hi % cap = (q.1 + q.2) % cap := by
  induction h with
  | one => exact ⟨_, rfl, by simp⟩
  | @cons v w hi len l _ _ hrest ih =>
    obtain ⟨q, hq, hmod⟩ := ih
    obtain ⟨_, _, rfl⟩ := hrest.head
    refine ⟨q, ?_, hmod⟩
    rwa [List.getLast?_cons_cons]

/-- Two positions less than a store apart: their pieces do not meet. -/
theorem apart_of_le {v' len' : Nat} (hle : v + len ≤ v') (hround : v' + len' ≤ v + cap) : Apart (v % cap, len) (v' % cap, len') := by
  have hv := Nat.div_add_mod v cap
  have hv' := Nat.div_add_mod v' cap
  unfold Apart
  dsimp only
  rcases Nat.lt_trichotomy (v / cap) (v' / cap) with hlt | heq | hgt
  · -- a lap further on
    have hlap : cap * (v / cap) + cap ≤ cap * (v' / cap) := by
      rw [← Nat.mul_succ]
      exact Nat.mul_le_mul_left cap hlt
    omega
  · rw [← heq] at hv'
    omega
  · have := Nat.div_le_div_right (c := cap) (show v ≤ v' by omega)
    omega

theorem Wound.apart_head (h : Wound cap w l hi) (hle : v + len ≤ w) (hround : hi ≤ v + cap) : ∀ q ∈ l, Apart (v % cap, len) q := by
  induction h with
  | one => simpa using apart_of_le hle hround
  | cons _ hle' hrest ih =>
    have hrest_le := hrest.le
    intro q hq
    rcases List.mem_cons.1 hq with rfl | hq
    · exact apart_of_le hle (by omega)
    · exact ih (by omega) hround q hq

theorem Wound.apart (h : Wound cap v l hi) (hround : hi ≤ v + cap) : l.Pairwise Apart := by
  induction h with
  | one => exact List.pairwise_singleton ..
  | cons _ hle hrest ih => exact .cons (hrest.apart_head hle hround) (ih (by omega))

theorem Laid.apart (h : Laid cap l) : l.Pairwise Apart := by
  rcases h with rfl | ⟨v, hi, h, hround⟩
  · exact .nil
  · exact h.apart hround.le

theorem Laid.inside (h : Laid cap l) : ∀ p ∈ l, p.1 + p.2 ≤ cap := by
  rcases h with rfl | ⟨v, hi, h, -⟩
  · simp
  · exact h.inside

theorem Laid.place_lt (h : Laid cap l) (hcap : 0 < cap) : ∀ p ∈ l, p.1 < cap := by
  rcases h with rfl | ⟨v, hi, h, -⟩
  · simp
  · exact h.place_lt hcap

theorem Laid.tail (h : Laid cap (p :: l)) : Laid cap l := by
  rcases h with hnil | ⟨v, hi, h, hround⟩
  · cases hnil
  · cases h with
    | one => exact .inl rfl
    | cons _ hle hrest => exact .inr ⟨_, hi, hrest, by omega⟩

theorem Laid.suffix {l₁ l₂ : List (Nat × Nat)} (h : Laid cap (l₁ ++ l₂)) : Laid cap l₂ := by
  induction l₁ with
  | nil => exact h
  | cons p l₁ ih => exact ih h.tail

/-! ## A new piece -/

theorem Wound.snoc (h : Wound cap v l hi) {v' : Nat} (hle : hi ≤ v') (hfit : v' % cap + len ≤ cap) :
    Wound cap v (l ++ [(v' % cap, len)]) (v' + len) := by
  induction h with
  | one hfit₁ => exact .cons hfit₁ hle (.one hfit)
  | cons hfit₁ hle₁ _ ih => exact .cons hfit₁ hle₁ (ih hle)

/-- There is room at `pos`, where `rpos` is the place of the first piece and
`wpos` that of the end of the last: behind the last piece up to the end of the
store or up to the first piece, or before the first piece from the start. -/
def Room (cap rpos wpos pos len : Nat) : Prop :=
  (pos = wpos ∧ rpos ≤ wpos ∧ wpos + len ≤ cap ∧ (rpos = 0 → wpos + len < cap)) ∨
  (pos = 0 ∧ rpos ≤ wpos ∧ len < rpos) ∨
  (pos = wpos ∧ wpos < rpos ∧ wpos + len < rpos)

/-- The room is on the band, behind the last piece. -/
theorem exists_of_room (hcap : 0 < cap) (hle : v ≤ hi) (hround : hi < v + cap)
    (h : Room cap (v % cap) (hi % cap) pos len) :
    ∃ v', hi ≤ v' ∧ v' % cap = pos ∧ pos + len ≤ cap ∧ v' + len < v + cap := by
  have hv := Nat.div_add_mod v cap
  have hhi := Nat.div_add_mod hi cap
  have hvlt := Nat.mod_lt v hcap
  have hhilt := Nat.mod_lt hi hcap
  have hmono := Nat.div_le_div_right (c := cap) hle
  have hnext := Nat.div_le_div_right (c := cap) hround.le
  rw [Nat.add_div_right v hcap] at hnext
  -- the laps of the first piece and of the end
  have hlap : hi / cap = v / cap ∨ cap * (hi / cap) = cap * (v / cap) + cap := by
    rcases Nat.eq_or_lt_of_le hmono with heq | hlt
    · exact .inl heq.symm
    · refine .inr ?_
      rw [Nat.le_antisymm hnext hlt, Nat.mul_succ]
  rcases h with ⟨rfl, hle', hfit, hfirst⟩ | ⟨rfl, hle', hlen⟩ | ⟨rfl, hlt, hlen⟩
  · rcases hlap with heq | hnext
    · rw [heq] at hhi
      exact ⟨hi, le_rfl, rfl, hfit, by omega⟩
    · omega
  · rcases hlap with heq | hnext
    · -- the tail of the store is left out
      rw [heq] at hhi
      refine ⟨cap * (v / cap + 1), ?_, Nat.mul_mod_right .., by omega, ?_⟩
      · rw [Nat.mul_succ]
        omega
      · rw [Nat.mul_succ]
        omega
    · omega
  · rcases hlap with heq | hnext
    · rw [heq] at hhi
      omega
    · exact ⟨hi, le_rfl, rfl, by omega, by omega⟩

theorem Laid.snoc (h : Laid cap l) (hcap : 0 < cap) (hnil : l = [] → pos + len < cap)
    (hroom : ∀ p q : Nat × Nat, p ∈ l.head? → q ∈ l.getLast? → Room cap p.1 ((q.1 + q.2) % cap) pos len) :
    Laid cap (l ++ [(pos, len)]) := by
  rcases h with rfl | ⟨v, hi, h, hround⟩
  · have hlt := hnil rfl
    have hpos : pos % cap = pos := Nat.mod_eq_of_lt (by omega)
    have hone : Wound cap pos [(pos % cap, len)] (pos + len) := .one (by rw [hpos]; exact hlt.le)
    rw [hpos] at hone
    exact .inr ⟨_, _, hone, by omega⟩
  · obtain ⟨q, hq, hmod⟩ := h.hi_mod
    obtain ⟨len₀, rest, hl⟩ := h.head
    have hr := hroom (v % cap, len₀) q (by simp [hl]) hq
    rw [← hmod] at hr
    obtain ⟨v', hle, rfl, hfit, hlt⟩ := exists_of_room hcap h.le hround hr
    exact .inr ⟨v, v' + len, h.snoc hle hfit, hlt⟩

/-- A new piece meets none of the others. -/
theorem Laid.apart_last (h : Laid cap (l ++ [p])) : ∀ q ∈ l, Apart q p := by
  intro q hq
  exact (List.pairwise_append.1 h.apart).2.2 q hq p (by simp)

end Band
