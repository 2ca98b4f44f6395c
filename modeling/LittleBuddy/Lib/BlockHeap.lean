import Mathlib.Algebra.Group.Nat.Defs
import Mathlib.Data.List.Basic
import Mathlib.Tactic.Common
/-!
# Heaps of adjacent blocks

A heap is a list of blocks that tile an interval, each one behind a header of
`h` addresses; a block is free or in use. An allocator replaces some blocks by
others of the same span, which leaves the blocks around them where they are.

Where no two free blocks are neighbours, the blocks in use say what the heap is
(`coalesced_unique`): its free blocks are the gaps between them, whatever was
allocated and freed before.
-/

namespace BlockHeap

structure Block where
  len : Nat
  free : Bool
  deriving DecidableEq

section Defs
variable (h : Nat)

/-- How many addresses the blocks take. -/
def span : List Block → Nat
  | [] => 0
  | b :: l => h + b.len + span l

/-- The blocks in use, from the address `a` on: where their headers are, and their lengths. -/
def used : Nat → List Block → List (Nat × Nat)
  | _, [] => []
  | a, b :: l => if b.free then used (a + h + b.len) l else (a, b.len) :: used (a + h + b.len) l

/-- The first free block from `a` on, or `e`. -/
def nextFree (e : Nat) : Nat → List Block → Nat
  | _, [] => e
  | a, b :: l => if b.free then a else nextFree e (a + h + b.len) l

/-- The last free block, or `c`. -/
def lastFree : Nat → Nat → List Block → Nat
  | c, _, [] => c
  | c, a, b :: l => lastFree (if b.free then a else c) (a + h + b.len) l

end Defs

/-- The free addresses, without the headers. -/
def freeLen : List Block → Nat
  | [] => 0
  | b :: l => (if b.free then b.len else 0) + freeLen l

/-- No two free blocks are neighbours. -/
def Coalesced : List Block → Prop
  | [] => True
  | b :: l => (b.free = true → ∀ c ∈ l.head?, c.free = false) ∧ Coalesced l

variable {h a c e x : Nat} {b : Block} {l l' r m m' : List Block}

@[simp] theorem span_nil : span h [] = 0 := rfl

@[simp] theorem span_cons : span h (b :: l) = h + b.len + span h l := rfl

@[simp] theorem span_append : span h (l ++ r) = span h l + span h r := by
  induction l with
  | nil => simp
  | cons b l ih => simp only [List.cons_append, span_cons, ih]; omega

@[simp] theorem freeLen_nil : freeLen [] = 0 := rfl

@[simp] theorem freeLen_cons : freeLen (b :: l) = (if b.free then b.len else 0) + freeLen l := rfl

@[simp] theorem freeLen_append : freeLen (l ++ r) = freeLen l + freeLen r := by
  induction l with
  | nil => simp
  | cons b l ih => simp only [List.cons_append, freeLen_cons, ih]; omega

theorem used_nil : used h a [] = [] := rfl

theorem used_cons_free (hb : b.free = true) : used h a (b :: l) = used h (a + h + b.len) l := if_pos hb

theorem used_cons_used (hb : b.free = false) : used h a (b :: l) = (a, b.len) :: used h (a + h + b.len) l := by
  simp [used, hb]

theorem used_append : used h a (l ++ r) = used h a l ++ used h (a + span h l) r := by
  induction l generalizing a with
  | nil => simp [used]
  | cons b l ih =>
    rw [List.cons_append, used, used, ih, span_cons, ← Nat.add_assoc, ← Nat.add_assoc]
    split <;> rfl

@[simp] theorem nextFree_free {n : Nat} : nextFree h e a (⟨n, true⟩ :: l) = a := rfl

@[simp] theorem nextFree_used {n : Nat} : nextFree h e a (⟨n, false⟩ :: l) = nextFree h e (a + h + n) l := rfl

theorem nextFree_append : nextFree h e a (l ++ r) = nextFree h (nextFree h e (a + span h l) r) a l := by
  induction l generalizing a with
  | nil => simp [nextFree]
  | cons b l ih =>
    rw [List.cons_append, nextFree, nextFree, ih, span_cons, ← Nat.add_assoc, ← Nat.add_assoc]

theorem lastFree_append : lastFree h c a (l ++ r) = lastFree h (lastFree h c a l) (a + span h l) r := by
  induction l generalizing a c with
  | nil => simp [lastFree]
  | cons b l ih =>
    rw [List.cons_append, lastFree, lastFree, ih, span_cons, ← Nat.add_assoc, ← Nat.add_assoc]

/-- The next free block is among the blocks, or behind them. -/
theorem nextFree_bounds (he : a + span h l ≤ e) : a ≤ nextFree h e a l ∧ nextFree h e a l ≤ e := by
  induction l generalizing a with
  | nil =>
    rw [span_nil, Nat.add_zero] at he
    exact ⟨he, Nat.le_refl _⟩
  | cons b l ih =>
    rw [span_cons] at he
    rw [nextFree]
    split
    · omega
    · have := ih (a := a + h + b.len) (by omega)
      omega

/-- There is a free block. -/
def HasFree (l : List Block) : Prop := ∃ b ∈ l, b.free = true

theorem nextFree_congr (hl : HasFree l) (e e' : Nat) : nextFree h e a l = nextFree h e' a l := by
  induction l generalizing a with
  | nil =>
    obtain ⟨b, hb, -⟩ := hl
    cases hb
  | cons b l ih =>
    rw [nextFree, nextFree]
    split
    · rfl
    · next hb =>
      obtain ⟨d, hd, hf⟩ := hl
      rcases List.mem_cons.1 hd with rfl | hd
      · exact absurd hf hb
      · exact ih ⟨d, hd, hf⟩

theorem nextFree_of_not (hl : ¬ HasFree l) : nextFree h e a l = e := by
  induction l generalizing a with
  | nil => rfl
  | cons b l ih =>
    rw [nextFree, if_neg fun hb => hl ⟨b, List.mem_cons_self, hb⟩]
    exact ih fun ⟨d, hd, hf⟩ => hl ⟨d, List.mem_cons_of_mem _ hd, hf⟩

theorem lastFree_of_not (hl : ¬ HasFree l) : lastFree h c a l = c := by
  induction l generalizing a c with
  | nil => rfl
  | cons b l ih =>
    rw [lastFree, if_neg fun hb => hl ⟨b, List.mem_cons_self, hb⟩]
    exact ih fun ⟨d, hd, hf⟩ => hl ⟨d, List.mem_cons_of_mem _ hd, hf⟩

/-- The last free block is one of the blocks. -/
theorem lastFree_mem (hl : HasFree l) : a ≤ lastFree h c a l ∧ ∃ l₁ b l₂, l = l₁ ++ b :: l₂ ∧ b.free = true ∧
    ¬ HasFree l₂ ∧ lastFree h c a l = a + span h l₁ := by
  induction l generalizing a c with
  | nil =>
    obtain ⟨b, hb, -⟩ := hl
    cases hb
  | cons b l ih =>
    rw [lastFree]
    by_cases hl' : HasFree l
    · obtain ⟨hle, l₁, d, l₂, rfl, hd, hn, heq⟩ := ih (a := a + h + b.len) (c := if b.free then a else c) hl'
      refine ⟨by omega, b :: l₁, d, l₂, rfl, hd, hn, ?_⟩
      rw [heq, span_cons]
      omega
    · obtain ⟨d, hd, hf⟩ := hl
      rcases List.mem_cons.1 hd with rfl | hd
      · rw [lastFree_of_not hl', if_pos hf]
        exact ⟨Nat.le_refl _, [], d, l, rfl, hf, hl', rfl⟩
      · exact absurd ⟨d, hd, hf⟩ hl'

theorem coalesced_append : Coalesced (l ++ r) ↔ Coalesced l ∧ Coalesced r ∧
    (∀ b ∈ l.getLast?, b.free = true → ∀ c ∈ r.head?, c.free = false) := by
  induction l with
  | nil => simp [Coalesced]
  | cons b l ih =>
    rw [List.cons_append, Coalesced, Coalesced, ih]
    cases l with
    | nil => simp [Coalesced]; tauto
    | cons d l =>
      simp only [List.cons_append, List.head?_cons, List.getLast?_cons_cons]
      tauto

/-- A block in use between two heaps. -/
theorem Coalesced.middle (hl : Coalesced l) (hr : Coalesced r) (hb : b.free = false) : Coalesced (l ++ b :: r) := by
  refine coalesced_append.2 ⟨hl, ⟨fun hf => ?_, hr⟩, ?_⟩
  · rw [hb] at hf
    cases hf
  · simp [hb]

theorem Coalesced.left (hl : Coalesced (l ++ r)) : Coalesced l := (coalesced_append.1 hl).1

theorem Coalesced.right (hl : Coalesced (l ++ r)) : Coalesced r := (coalesced_append.1 hl).2.1

theorem mem_used {p : Nat × Nat} : p ∈ used h a l ↔
    ∃ l₁ l₂, l = l₁ ++ ⟨p.2, false⟩ :: l₂ ∧ p.1 = a + span h l₁ := by
  induction l generalizing a with
  | nil => simp [used]
  | cons b l ih =>
    constructor
    · intro hp
      by_cases hb : b.free
      · rw [used_cons_free hb] at hp
        obtain ⟨l₁, l₂, rfl, heq⟩ := ih.1 hp
        exact ⟨b :: l₁, l₂, rfl, by rw [heq, span_cons]; omega⟩
      · rw [used_cons_used (by simpa using hb)] at hp
        rcases List.mem_cons.1 hp with rfl | hp
        · exact ⟨[], l, by cases b; simp_all, rfl⟩
        · obtain ⟨l₁, l₂, rfl, heq⟩ := ih.1 hp
          exact ⟨b :: l₁, l₂, rfl, by rw [heq, span_cons]; omega⟩
    · rintro ⟨l₁, l₂, heq, hp⟩
      cases l₁ with
      | nil =>
        cases heq
        rw [used_cons_used rfl]
        exact List.mem_cons.2 (.inl (Prod.ext hp rfl))
      | cons d l₁ =>
        cases heq
        have hmem := ih.2 ⟨l₁, l₂, rfl, show p.1 = b.len + (a + h) + span h l₁ by rw [hp, span_cons]; omega⟩
        rw [Nat.add_comm] at hmem
        by_cases hb : b.free
        · rw [used_cons_free hb]
          exact hmem
        · rw [used_cons_used (by simpa using hb)]
          exact List.mem_cons_of_mem _ hmem

/-- The blocks in use lie one behind the other. -/
theorem used_bounds {p : Nat × Nat} (hp : p ∈ used h a l) : a ≤ p.1 ∧ p.1 + h + p.2 ≤ a + span h l := by
  obtain ⟨l₁, l₂, rfl, hp⟩ := mem_used.1 hp
  simp only [span_append, span_cons]
  omega

theorem used_sorted (h a : Nat) (l : List Block) : (used h a l).Pairwise fun p q => p.1 + h + p.2 ≤ q.1 := by
  induction l generalizing a with
  | nil => exact .nil
  | cons b l ih =>
    rw [used]
    split
    · exact ih _
    · exact .cons (fun q hq => (used_bounds hq).1) (ih _)

theorem used_apart {p q : Nat × Nat} (hp : p ∈ used h a l) (hq : q ∈ used h a l) (hne : p ≠ q) :
    p.1 + h + p.2 ≤ q.1 ∨ q.1 + h + q.2 ≤ p.1 := by
  induction l generalizing a with
  | nil => cases hp
  | cons b l ih =>
    cases hb : b.free with
    | true =>
      rw [used_cons_free hb] at hp hq
      exact ih hp hq
    | false =>
      rw [used_cons_used hb] at hp hq
      rcases List.mem_cons.1 hp with rfl | hp <;> rcases List.mem_cons.1 hq with rfl | hq
      · exact absurd rfl hne
      · exact .inl (used_bounds hq).1
      · exact .inr (used_bounds hp).1
      · exact ih hp hq

/-- A block in use ends before the last free block, or comes behind its header. -/
theorem used_lastFree (hl : HasFree l) {p : Nat × Nat} (hp : p ∈ used h a l) :
    p.1 + h + p.2 ≤ lastFree h c a l ∨ lastFree h c a l + h ≤ p.1 := by
  obtain ⟨-, l₁, b, l₂, rfl, hb, -, heq⟩ := lastFree_mem (h := h) (a := a) (c := c) hl
  rw [heq]
  rw [used_append, List.mem_append, used_cons_free hb] at hp
  rcases hp with hp | hp
  · exact .inl (used_bounds hp).2
  · right
    have := (used_bounds hp).1
    omega

/-! ## The blocks in use determine the heap -/

theorem Coalesced.head_used (hl : Coalesced (b :: l)) (hb : b.free = true) (hne : l ≠ []) :
    (a + h + b.len) ∈ (used h a (b :: l)).map Prod.fst := by
  cases l with
  | nil => exact absurd rfl hne
  | cons d l =>
    have hd : d.free = false := hl.1 hb d rfl
    rw [used_cons_free hb, used_cons_used hd]
    exact List.mem_cons_self

theorem span_pos (hh : 0 < h) (hne : l ≠ []) : 0 < span h l := by
  cases l with
  | nil => exact absurd rfl hne
  | cons b l =>
    rw [span_cons]
    omega

/-- In a heap that begins with a free block, nothing is in use before that block's end. -/
theorem le_of_mem_used (hb : b.free = true) {p : Nat × Nat} (hp : p ∈ used h a (b :: l)) : a + h + b.len ≤ p.1 := by
  rw [used_cons_free hb] at hp
  exact (used_bounds hp).1

/-- Two heaps of one span with free blocks in front, and the same blocks in use. -/
theorem free_len_le {b' : Block} (hl' : Coalesced (b' :: l'))
    (hb : b.free = true) (hb' : b'.free = true) (hs : span h (b :: l) = span h (b' :: l'))
    (hu : used h a (b :: l) = used h a (b' :: l')) : b.len ≤ b'.len := by
  by_contra hlt
  -- the shorter block ends inside the longer one, where nothing is in use
  have hne : l' ≠ [] := by
    rintro rfl
    simp only [span_cons, span_nil] at hs
    omega
  have hmem := hl'.head_used (h := h) (a := a) hb' hne
  rw [← hu] at hmem
  obtain ⟨p, hp, hpe⟩ := List.mem_map.1 hmem
  have := le_of_mem_used hb hp
  omega

/-- The free blocks of a heap are the gaps between the blocks in use. -/
theorem coalesced_unique (hh : 0 < h) (hl : Coalesced l) (hl' : Coalesced l') (hs : span h l = span h l')
    (hu : used h a l = used h a l') : l = l' := by
  induction l generalizing a l' with
  | nil =>
    by_contra hne
    have := span_pos hh (Ne.symm hne)
    rw [← hs] at this
    exact absurd this (Nat.lt_irrefl 0)
  | cons b l ih =>
    cases l' with
    | nil => exact absurd hs (by rw [span_nil, span_cons]; omega)
    | cons b' l' =>
      have hbb : b = b' := by
        rcases hb : b.free with _ | _ <;> rcases hb' : b'.free with _ | _
        · rw [used_cons_used hb, used_cons_used hb', List.cons.injEq, Prod.mk.injEq] at hu
          cases b; cases b'
          simp_all
        · -- a block in use is in front of a free one
          have hmem : (a, b.len) ∈ used h a (b' :: l') := by
            rw [← hu, used_cons_used hb]
            exact List.mem_cons_self
          have := le_of_mem_used hb' hmem
          simp only at this
          omega
        · have hmem : (a, b'.len) ∈ used h a (b :: l) := by
            rw [hu, used_cons_used hb']
            exact List.mem_cons_self
          have := le_of_mem_used hb hmem
          simp only at this
          omega
        · have h₁ := free_len_le hl' hb hb' hs hu
          have h₂ := free_len_le hl hb' hb hs.symm hu.symm
          cases b; cases b'
          simp only at hb hb' h₁ h₂
          simp only [Block.mk.injEq]
          exact ⟨Nat.le_antisymm h₁ h₂, by rw [hb, hb']⟩
      subst hbb
      have hrest : used h (a + h + b.len) l = used h (a + h + b.len) l' := by
        cases hb : b.free with
        | true => rwa [used_cons_free hb, used_cons_free hb] at hu
        | false =>
          rw [used_cons_used hb, used_cons_used hb] at hu
          exact (List.cons.inj hu).2
      rw [ih hl.2 hl'.2 (by simpa using hs) hrest]

end BlockHeap
