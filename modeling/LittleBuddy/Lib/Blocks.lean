import Mathlib.Data.List.Nodup
import Mathlib.Logic.Function.Basic
import Mathlib.Tactic.Common
/-!
# Blocks of a memory

A memory of one kind of blocks maps an address to the block at it, or to `none`.
`Holds` says that it has exactly the blocks of a list of objects, one each, and
what is left when one is freed or a new one is allocated. Programs on a memory
are in `StateT σ Option`: without a result where they use an address at which
there is no block.
-/

namespace Blocks

variable {α β γ : Type}

/-- The memory has exactly the blocks `g c` at `f c`, of the objects of the list. -/
structure Holds (m : α → Option β) (f : γ → α) (g : γ → β) (l : List γ) : Prop where
  nodup : (l.map f).Nodup
  eq_some_iff : ∀ a b, m a = some b ↔ ∃ c ∈ l, f c = a ∧ g c = b

variable {m : α → Option β} {f : γ → α} {g : γ → β} {l l₁ l₂ : List γ} {c : γ} {a : α}

namespace Holds

theorem read (h : Holds m f g l) (hc : c ∈ l) : m (f c) = some (g c) := (h.eq_some_iff _ _).mpr ⟨c, hc, rfl, rfl⟩

theorem read_middle (h : Holds m f g (l₁ ++ c :: l₂)) : m (f c) = some (g c) :=
  h.read (List.mem_append_right _ List.mem_cons_self)

/-- Every block is one of an object. -/
theorem mem_of_ne_none (h : Holds m f g l) (ha : m a ≠ none) : a ∈ l.map f := by
  obtain ⟨b, hb⟩ := Option.ne_none_iff_exists'.mp ha
  obtain ⟨c, hc, rfl, _⟩ := (h.eq_some_iff a b).mp hb
  exact List.mem_map_of_mem hc

theorem nil (hm : ∀ a, m a = none) : Holds m f g [] := by
  refine ⟨List.nodup_nil, fun a b => ?_⟩
  simp [hm a]

theorem congr {m' : α → Option β} (h : Holds m f g l) (hm : ∀ a, m' a = m a) : Holds m' f g l := by
  obtain rfl : m' = m := funext hm
  exact h

variable [DecidableEq α]

/-- The block of an object is freed. -/
theorem free (h : Holds m f g (l₁ ++ c :: l₂)) : Holds (Function.update m (f c) none) f g (l₁ ++ l₂) := by
  have hnodup := h.nodup
  rw [List.map_append, List.map_cons, List.nodup_middle, List.nodup_cons, ← List.map_append] at hnodup
  refine ⟨hnodup.2, fun a b => ?_⟩
  rcases eq_or_ne a (f c) with rfl | hne
  · rw [Function.update_self]
    constructor
    · exact fun h => absurd h.symm (Option.some_ne_none b)
    · rintro ⟨c', hc', heq, _⟩
      exact absurd (heq ▸ List.mem_map_of_mem hc') hnodup.1
  · rw [Function.update_of_ne hne, h.eq_some_iff]
    constructor
    · rintro ⟨c', hc', rfl, hg⟩
      rcases List.mem_append.mp hc' with hl | hr
      · exact ⟨c', List.mem_append_left _ hl, rfl, hg⟩
      · rcases List.mem_cons.mp hr with rfl | hr
        · exact absurd rfl hne
        · exact ⟨c', List.mem_append_right _ hr, rfl, hg⟩
    · rintro ⟨c', hc', hf, hg⟩
      refine ⟨c', ?_, hf, hg⟩
      rcases List.mem_append.mp hc' with hl | hr
      · exact List.mem_append_left _ hl
      · exact List.mem_append_right _ (List.mem_cons_of_mem _ hr)

/-- A block is allocated where there was none. -/
theorem alloc (h : Holds m f g l) (hfree : m (f c) = none) : Holds (Function.update m (f c) (some (g c))) f g (l ++ [c]) := by
  have hnew : f c ∉ l.map f := by
    intro hmem
    obtain ⟨c', hc', heq⟩ := List.mem_map.mp hmem
    have := h.read hc'
    rw [heq, hfree] at this
    exact absurd this.symm (Option.some_ne_none _)
  refine ⟨?_, fun a b => ?_⟩
  · rw [List.map_append]
    exact List.nodup_append.mpr ⟨h.nodup, List.nodup_singleton _, fun x hx y hy => by
      rw [List.mem_singleton.mp hy]
      rintro rfl
      exact hnew hx⟩
  · rcases eq_or_ne a (f c) with rfl | hne
    · rw [Function.update_self]
      constructor
      · intro hb
        exact ⟨c, List.mem_append_right _ (List.mem_singleton_self c), rfl, Option.some.inj hb⟩
      · rintro ⟨c', hc', heq, rfl⟩
        rcases List.mem_append.mp hc' with hl | hr
        · exact absurd (heq ▸ List.mem_map_of_mem hl) hnew
        · rw [List.mem_singleton.mp hr]
    · rw [Function.update_of_ne hne, h.eq_some_iff]
      constructor
      · rintro ⟨c', hc', hf, hg⟩
        exact ⟨c', List.mem_append_left _ hc', hf, hg⟩
      · rintro ⟨c', hc', rfl, hg⟩
        rcases List.mem_append.mp hc' with hl | hr
        · exact ⟨c', hl, rfl, hg⟩
        · exact absurd (by rw [List.mem_singleton.mp hr]) hne

end Holds

/-! ## Programs -/

section Programs

variable {σ : Type} {s s' : σ} {x : α} {p : StateT σ Option α} {q : α → StateT σ Option β}

/-- A program goes on behind a part that has a result. -/
theorem bind_run (h : p s = some (x, s')) : (p >>= q) s = q x s' := by
  change (p s >>= fun r => q r.1 r.2) = q x s'
  rw [h]
  rfl

theorem bind_fault (h : p s = none) : (p >>= q) s = none := by
  change (p s >>= fun r => q r.1 r.2) = none
  rw [h]
  rfl

theorem pure_run (x : α) (s : σ) : (pure x : StateT σ Option α) s = some (x, s) := rfl

end Programs

end Blocks
