import Mathlib.Data.List.Basic
import Mathlib.Data.List.Nodup
import Mathlib.Tactic.Common
/-!
# A ledger

Things are taken in under growing numbers, held for a while and let go. `Kept`
says that what is held is what was taken and not let go. `Served` says that things
are served once each in the order of their numbers.
-/

namespace Ledger

variable {α : Type} {no : α → Nat} {a : α} {held done waiting : List α} {taken gone more : α → Prop} {next : Nat}

theorem pairwise_snoc {l : List α} (h : l.Pairwise fun a b => no a < no b) (hlast : ∀ b ∈ l, no b < no a) :
    (l ++ [a]).Pairwise fun a b => no a < no b := by
  refine List.pairwise_append.2 ⟨h, List.pairwise_singleton _ _, fun b hb c hc => ?_⟩
  obtain rfl := List.mem_singleton.1 hc
  exact hlast b hb

/-- `held` is what was taken and is not gone; the next number is `next`. -/
structure Kept (no : α → Nat) (held : List α) (taken gone : α → Prop) (next : Nat) : Prop where
  held_iff : ∀ a, a ∈ held ↔ taken a ∧ ¬ gone a
  below : ∀ a, taken a → no a < next
  gone_taken : ∀ a, gone a → taken a
  sorted : held.Pairwise fun a b => no a < no b

theorem Kept.nil (ht : ∀ a, ¬ taken a) (hg : ∀ a, ¬ gone a) : Kept no [] taken gone next :=
  ⟨fun a => by simp [ht a], fun a h => absurd h (ht a), fun a h => absurd h (hg a), .nil⟩

theorem Kept.skip (h : Kept no held taken gone next) : Kept no held taken gone (next + 1) :=
  ⟨h.held_iff, fun a ha => Nat.lt_succ_of_lt (h.below a ha), h.gone_taken, h.sorted⟩

theorem Kept.take (h : Kept no held taken gone next) (ha : no a = next) (hm : ∀ b, more b ↔ taken b ∨ b = a) :
    Kept no (held ++ [a]) more gone (next + 1) := by
  have hnew : ¬ taken a := fun ht => absurd (h.below a ht) (by omega)
  refine ⟨fun b => ?_, fun b hb => ?_, fun b hb => (hm b).2 (.inl (h.gone_taken b hb)), ?_⟩
  · rw [List.mem_append, List.mem_singleton, h.held_iff, hm]
    constructor
    · rintro (⟨ht, hg⟩ | rfl)
      · exact ⟨.inl ht, hg⟩
      · exact ⟨.inr rfl, fun hg => hnew (h.gone_taken b hg)⟩
    · rintro ⟨ht | rfl, hg⟩
      · exact .inl ⟨ht, hg⟩
      · exact .inr rfl
  · rcases (hm b).1 hb with hb | rfl
    · exact Nat.lt_succ_of_lt (h.below b hb)
    · omega
  · exact pairwise_snoc h.sorted fun b hb => ha ▸ h.below b ((h.held_iff b).1 hb).1

/-- The first one is let go, and no other. -/
theorem Kept.drop (h : Kept no (a :: held) taken gone next) (hm : ∀ b, more b ↔ gone b ∨ b = a) :
    Kept no held taken more next := by
  obtain ⟨hfirst, hsorted⟩ := List.pairwise_cons.1 h.sorted
  refine ⟨fun b => ?_, h.below, fun b hb => ?_, hsorted⟩
  · rw [hm, not_or]
    constructor
    · intro hb
      obtain ⟨ht, hg⟩ := (h.held_iff b).1 (List.mem_cons_of_mem a hb)
      refine ⟨ht, hg, ?_⟩
      rintro rfl
      exact Nat.lt_irrefl _ (hfirst b hb)
    · rintro ⟨ht, hg, hne⟩
      exact (List.mem_cons.1 ((h.held_iff b).2 ⟨ht, hg⟩)).resolve_left hne
  · rcases (hm b).1 hb with hb | rfl
    · exact h.gone_taken b hb
    · exact ((h.held_iff b).1 List.mem_cons_self).1

theorem Kept.clear (h : Kept no held taken gone next) (hm : ∀ b, more b ↔ gone b ∨ b ∈ held) :
    Kept no [] taken more next := by
  refine ⟨fun b => ?_, h.below, fun b hb => ?_, .nil⟩
  · rw [hm, h.held_iff b]
    simp only [List.not_mem_nil, false_iff]
    tauto
  · rcases (hm b).1 hb with hb | hb
    · exact h.gone_taken b hb
    · exact ((h.held_iff b).1 hb).1

theorem Kept.nodup (h : Kept no held taken gone next) : held.Nodup :=
  h.sorted.imp fun {a b} (hlt : no a < no b) (heq : a = b) => Nat.lt_irrefl (no b) (heq ▸ hlt)

/-- `done` were served and `waiting` follow them, in the order of their numbers. -/
structure Served (no : α → Nat) (done waiting : List α) (next : Nat) : Prop where
  sorted : (done ++ waiting).Pairwise fun a b => no a < no b
  below : ∀ a ∈ done ++ waiting, no a < next

theorem Served.nil : Served no ([] : List α) [] next := ⟨.nil, by simp⟩

theorem Served.skip (h : Served no done waiting next) : Served no done waiting (next + 1) :=
  ⟨h.sorted, fun a ha => Nat.lt_succ_of_lt (h.below a ha)⟩

theorem Served.join (h : Served no done waiting next) (ha : no a = next) : Served no done (waiting ++ [a]) (next + 1) := by
  refine ⟨?_, fun b hb => ?_⟩
  · rw [← List.append_assoc]
    exact pairwise_snoc h.sorted fun b hb => ha ▸ h.below b hb
  · rw [← List.append_assoc, List.mem_append, List.mem_singleton] at hb
    rcases hb with hb | rfl
    · exact Nat.lt_succ_of_lt (h.below b hb)
    · omega

/-- The first that waits is served. -/
theorem Served.serve (h : Served no done (a :: waiting) next) : Served no (done ++ [a]) waiting next := by
  have hl : (done ++ [a]) ++ waiting = done ++ a :: waiting := by rw [List.append_assoc, List.singleton_append]
  exact ⟨hl ▸ h.sorted, hl ▸ h.below⟩

theorem Served.order (h : Served no done waiting next) : done.Pairwise fun a b => no a < no b :=
  (List.pairwise_append.1 h.sorted).1

theorem Served.clear (h : Served no done waiting next) : Served no done [] next := by
  refine ⟨?_, fun a ha => h.below a ?_⟩
  · rw [List.append_nil]
    exact h.order
  · rw [List.append_nil] at ha
    exact List.mem_append_left waiting ha

end Ledger
