import Mathlib.Data.List.Basic
import Mathlib.Data.List.Induction
import Mathlib.Tactic.Common
/-!
# Requests to open and close

A log of requests that open and close things. `Held` says that at no time two
things were open, and which one is open at the end: the one that was opened last
and not closed since.
-/

namespace OpenClose

inductive Req (α : Type)
  | opens (x : α) | closes (x : α) | keeps
  deriving DecidableEq

variable {α : Type} {x y : α} {r : Req α} {log : List (Req α)} {c c' : Option α}

/-- `x` was opened and not closed since. -/
def IsOpen (x : α) (log : List (Req α)) : Prop := ∃ pre post, log = pre ++ .opens x :: post ∧ .closes x ∉ post

/-- The last request to open was for `x`, which was not closed since. -/
def Latest (x : α) (log : List (Req α)) : Prop :=
  ∃ pre post, log = pre ++ .opens x :: post ∧ (∀ y, .opens y ∉ post) ∧ .closes x ∉ post

/-- At no time two things are open. -/
def Exclusive (log : List (Req α)) : Prop := ∀ p, p <+: log → ∀ x y, IsOpen x p → IsOpen y p → x = y

theorem not_isOpen_nil : ¬ IsOpen x [] := by
  rintro ⟨pre, post, he, -⟩
  simp at he

theorem isOpen_snoc : IsOpen x (log ++ [r]) ↔ r = .opens x ∨ (r ≠ .closes x ∧ IsOpen x log) := by
  constructor
  · rintro ⟨pre, post, he, hc⟩
    rcases List.eq_nil_or_concat post with rfl | ⟨post, r', rfl⟩
    · exact .inl (List.singleton_inj.1 (List.append_inj' he rfl).2)
    · rw [List.concat_eq_append] at he hc
      rw [← List.cons_append, ← List.append_assoc] at he
      obtain ⟨rfl, hr⟩ := List.append_inj' he rfl
      obtain rfl := List.singleton_inj.1 hr
      rw [List.mem_append, List.mem_singleton, not_or] at hc
      exact .inr ⟨fun h => hc.2 h.symm, pre, post, rfl, hc.1⟩
  · rintro (rfl | ⟨hr, pre, post, rfl, hc⟩)
    · exact ⟨log, [], rfl, List.not_mem_nil⟩
    · refine ⟨pre, post ++ [r], by rw [List.append_assoc, List.cons_append], ?_⟩
      rw [List.mem_append, List.mem_singleton, not_or]
      exact ⟨hc, fun h => hr h.symm⟩

theorem Latest.isOpen (h : Latest x log) : IsOpen x log := by
  obtain ⟨pre, post, he, -, hc⟩ := h
  exact ⟨pre, post, he, hc⟩

theorem Exclusive.init (h : Exclusive (log ++ [r])) : Exclusive log := fun p hp => h p (hp.trans (List.prefix_append log [r]))

/-- What is open was opened last, where only one thing is. -/
theorem Exclusive.latest (h : Exclusive log) (hx : IsOpen x log) : Latest x log := by
  induction log using List.reverseRecOn with
  | nil => exact absurd hx not_isOpen_nil
  | append_singleton log r ih =>
    by_cases hr : r = .opens x
    · subst hr
      exact ⟨log, [], rfl, fun _ => List.not_mem_nil, List.not_mem_nil⟩
    obtain ⟨hc, hopen⟩ := (isOpen_snoc.1 hx).resolve_left hr
    obtain ⟨pre, post, rfl, hopens, hcloses⟩ := ih h.init hopen
    refine ⟨pre, post ++ [r], by rw [List.append_assoc, List.cons_append], ?_, ?_⟩
    · intro y hy
      rcases List.mem_append.1 hy with hy | hy
      · exact hopens y hy
      · -- two things would be open after the last request
        obtain rfl := List.mem_singleton.1 hy
        have hxy : x = y := h _ List.prefix_rfl x y hx (isOpen_snoc.2 (.inl rfl))
        exact hr (hxy ▸ rfl)
    · rw [List.mem_append, List.mem_singleton, not_or]
      exact ⟨hcloses, fun h => hc h.symm⟩

/-! ## One thing at a time -/

/-- At no time two things were open, and `c` is the one that is open. -/
structure Held (log : List (Req α)) (c : Option α) : Prop where
  exclusive : Exclusive log
  current : ∀ x, IsOpen x log ↔ c = some x

theorem Held.nil : Held ([] : List (Req α)) none := by
  refine ⟨fun p hp x y hx _ => ?_, fun x => ?_⟩
  · rw [List.prefix_nil.1 hp] at hx
    exact absurd hx not_isOpen_nil
  · simp [not_isOpen_nil]

theorem Held.snoc (h : Held log c) (hr : ∀ x, r = .opens x ∨ (r ≠ .closes x ∧ c = some x) ↔ c' = some x) :
    Held (log ++ [r]) c' := by
  have hcur (x : α) : IsOpen x (log ++ [r]) ↔ c' = some x := by
    rw [isOpen_snoc, h.current, hr]
  refine ⟨fun p hp x y hx hy => ?_, hcur⟩
  rcases List.prefix_concat_iff.1 hp with rfl | hp
  · exact Option.some.inj (((hcur x).1 hx).symm.trans ((hcur y).1 hy))
  · exact h.exclusive p hp x y hx hy

theorem Held.opens (h : Held log none) (x : α) : Held (log ++ [.opens x]) (some x) := h.snoc fun y => by simp

/-- What is open may be opened once more. -/
theorem Held.again (h : Held log (some x)) : Held (log ++ [.opens x]) (some x) := h.snoc fun y => by simp

theorem Held.closes (h : Held log (some x)) : Held (log ++ [.closes x]) none := by
  refine h.snoc fun y => ?_
  simp only [reduceCtorEq, false_or, ne_eq, Req.closes.injEq, Option.some.injEq, iff_false, not_and]
  exact fun h => h

/-- Closing what is not open changes nothing. -/
theorem Held.skips (h : Held log c) (hx : c ≠ some x) : Held (log ++ [.closes x]) c := by
  refine h.snoc fun y => ?_
  simp only [reduceCtorEq, false_or, ne_eq, Req.closes.injEq, and_iff_right_iff_imp]
  rintro rfl rfl
  exact hx rfl

theorem Held.keeps (h : Held log c) : Held (log ++ [.keeps]) c := h.snoc fun y => by simp

/-- The one that is open is the one opened last. -/
theorem Held.latest (h : Held log c) : c = some x ↔ Latest x log := by
  rw [← h.current]
  exact ⟨h.exclusive.latest, Latest.isOpen⟩

/-- Two things are open after a request for another one. -/
theorem Held.two (h : Held log (some x)) (hxy : x ≠ y) : ¬ Exclusive (log ++ [.opens y]) := by
  intro he
  have hx : IsOpen x (log ++ [.opens y]) := isOpen_snoc.2 (.inr ⟨by simp, (h.current x).2 rfl⟩)
  exact hxy (he _ List.prefix_rfl x y hx (isOpen_snoc.2 (.inl rfl)))

end OpenClose
