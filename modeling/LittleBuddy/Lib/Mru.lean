import Mathlib.Data.List.Induction
import Mathlib.Data.List.Nodup
import Mathlib.Tactic.Common
import LittleBuddy.Lib.Slots
/-!
# Most-recently-used lists

A list of at most `cap` elements with distinct keys. Adding an element puts it
at the front, takes the place of one with the same key, and pushes the last
element out of a full list. `mem_applyAll` says which elements are there after
a sequence of operations, and `applyAll_sorted` in which order.
-/

namespace Mru

variable {α β κ : Type} [DecidableEq κ] (key : α → κ) (cap : Nat)

/-- The elements whose key is not `k`. -/
def drop (k : κ) (l : List α) : List α := l.filter fun x => key x ≠ k

/-- `x` at the front. -/
def touch (x : α) (l : List α) : List α := (x :: drop key (key x) l).take cap

variable {key cap} {l : List α} {x y : α} {k : κ}

@[simp] theorem mem_drop : y ∈ drop key k l ↔ y ∈ l ∧ key y ≠ k := by simp [drop]

theorem drop_of_notMem (h : k ∉ l.map key) : drop key k l = l := by
  apply List.filter_eq_self.2
  intro y hy
  simp only [ne_eq, decide_eq_true_eq]
  rintro rfl
  exact h (List.mem_map_of_mem hy)

theorem drop_sublist : (drop key k l).Sublist l := List.filter_sublist

theorem drop_append (l' : List α) : drop key k (l ++ l') = drop key k l ++ drop key k l' := List.filter_append ..

/-- With distinct keys, dropping a key removes one element. -/
theorem eraseIdx_eq_drop (hd : (l.map key).Nodup) {i : Nat} (hi : i < l.length) (hk : key l[i] = k) :
    l.eraseIdx i = drop key k l := by
  have hl : l.take i ++ l[i] :: l.drop (i + 1) = l := by simp
  have hd' := hd
  rw [← hl, List.map_append, List.map_cons, List.nodup_middle, List.nodup_cons, hk] at hd'
  have hn := hd'.1
  rw [List.mem_append, not_or] at hn
  rw [List.eraseIdx_eq_take_drop_succ]
  conv => rhs; rw [← hl]
  rw [drop_append, drop_of_notMem hn.1]
  congr 1
  rw [show l[i] :: l.drop (i + 1) = [l[i]] ++ l.drop (i + 1) from rfl, drop_append, drop_of_notMem hn.2]
  simp [drop, hk]

/-- What is left of a counted array when the cell with a key is taken out. -/
theorem search_drop {a : Nat → α} {n i : Nat} (hd : ((Slots.view a n).map key).Nodup)
    (h : Slots.search key k a n = some i) : (Slots.view a n).eraseIdx i = drop key k (Slots.view a n) := by
  obtain ⟨hi, ha⟩ := Slots.search_some h
  apply eraseIdx_eq_drop hd (by rwa [Slots.length_view])
  rwa [Slots.getElem_view]

theorem length_drop_lt (h : k ∈ l.map key) : (drop key k l).length < l.length := by
  obtain ⟨y, hy, rfl⟩ := List.mem_map.1 h
  rcases Nat.lt_or_ge (drop key (key y) l).length l.length with hlt | hge
  · exact hlt
  · rw [← drop_sublist.eq_of_length_le hge] at hy
    exact absurd rfl (mem_drop.1 hy).2

/-- The front of a list that has the key, -/
theorem touch_of_mem (hl : l.length ≤ cap) (h : key x ∈ l.map key) : touch key cap x l = x :: drop key (key x) l := by
  apply List.take_of_length_le
  have := length_drop_lt h
  rw [List.length_cons]
  omega

/-- and of one that has not. -/
theorem touch_of_notMem (hcap : 0 < cap) (h : key x ∉ l.map key) : touch key cap x l = x :: l.take (cap - 1) := by
  unfold touch
  rw [drop_of_notMem h]
  obtain ⟨c, rfl⟩ := Nat.exists_eq_add_of_lt hcap
  simp

theorem length_touch_le : (touch key cap x l).length ≤ cap := by
  unfold touch
  rw [List.length_take]
  omega

theorem nodup_drop (h : (l.map key).Nodup) : ((drop key k l).map key).Nodup :=
  h.sublist (drop_sublist.map key)

theorem nodup_touch (h : (l.map key).Nodup) : ((touch key cap x l).map key).Nodup := by
  unfold touch
  refine List.Nodup.sublist ((List.take_sublist _ _).map key) ?_
  rw [List.map_cons, List.nodup_cons]
  refine ⟨?_, nodup_drop h⟩
  simp [mem_drop]

theorem map_drop (key : β → κ) (f : α → β) : (drop (fun x => key (f x)) k l).map f = drop key k (l.map f) := by
  simp only [drop, List.filter_map]
  rfl

theorem map_touch (key : β → κ) (f : α → β) :
    (touch (fun x => key (f x)) cap x l).map f = touch key cap (f x) (l.map f) := by
  simp only [touch, List.map_take, List.map_cons, map_drop]

/-! ## Sequences of operations -/

/-- What may be done to a list; `keep` leaves it as it is. -/
inductive Op (α κ : Type) where
  | add (x : α)
  | remove (k : κ)
  | keep

variable (key cap)

/-- The list after an operation. -/
def apply (l : List α) : Op α κ → List α
  | .add x => touch key cap x l
  | .remove k => drop key k l
  | .keep => l

/-- The list after a sequence of operations on the empty one. -/
def applyAll (ops : List (Op α κ)) : List α := ops.foldl (apply key cap) []

/-- The operation takes away what the list has under `k`: it adds or removes
`k`, or `k` is the last of a full list and another element comes in. -/
def Clears (l : List α) (k : κ) : Op α κ → Prop
  | .add x => key x = k ∨ (key x ∉ l.map key ∧ cap ≤ l.length ∧ ∃ y, l.getLast? = some y ∧ key y = k)
  | .remove k' => k' = k
  | .keep => False

/-- The operation adds `k`. -/
def adds (k : κ) : Op α κ → Bool
  | .add x => key x = k
  | .remove _ | .keep => false

/-- The number of the last operation that adds `k`, from 1, or 0. -/
def lastAdd (ops : List (Op α κ)) (k : κ) : Nat := ops.length - ops.reverse.findIdx (adds key k)

variable {key cap} {ops : List (Op α κ)} {op : Op α κ}

@[simp] theorem applyAll_snoc : applyAll key cap (ops ++ [op]) = apply key cap (applyAll key cap ops) op := by
  simp [applyAll]

theorem lastAdd_snoc : lastAdd key (ops ++ [op]) k = if adds key k op then ops.length + 1 else lastAdd key ops k := by
  unfold lastAdd
  rw [List.reverse_append, List.reverse_cons, List.reverse_nil, List.nil_append, List.singleton_append,
    List.findIdx_cons]
  cases adds key k op <;> simp

theorem lastAdd_le : lastAdd key ops k ≤ ops.length := Nat.sub_le ..

/-- A list that operations can lead to. -/
def Fits (key : α → κ) (cap : Nat) (l : List α) : Prop := l.length ≤ cap ∧ (l.map key).Nodup

theorem Fits.apply (h : Fits key cap l) : Fits key cap (apply key cap l op) := by
  cases op with
  | add x => exact ⟨length_touch_le, nodup_touch h.2⟩
  | remove k => exact ⟨Nat.le_trans drop_sublist.length_le h.1, nodup_drop h.2⟩
  | keep => exact h

theorem fits_applyAll : Fits key cap (applyAll key cap ops) := by
  induction ops using List.reverseRecOn with
  | nil => exact ⟨Nat.zero_le _, List.nodup_nil⟩
  | append_singleton ops op ih => rw [applyAll_snoc]; exact ih.apply

/-- What stays. -/
theorem mem_apply (hcap : 0 < cap) (h : Fits key cap l) :
    y ∈ apply key cap l op ↔ op = .add y ∨ (y ∈ l ∧ ¬ Clears key cap l (key y) op) := by
  cases op with
  | remove k =>
    simp only [apply, mem_drop, Clears, reduceCtorEq, false_or]
    tauto
  | keep => simp [apply, Clears]
  | add x =>
    simp only [apply, Clears, Op.add.injEq, not_or]
    by_cases hx : key x ∈ l.map key
    · rw [touch_of_mem h.1 hx]
      simp only [List.mem_cons, mem_drop, hx, not_true, false_and, not_false_iff, and_true]
      rw [eq_comm (a := x), ne_comm]
    · rw [touch_of_notMem hcap hx, List.mem_cons, eq_comm (a := x)]
      refine or_congr Iff.rfl ?_
      rcases Nat.lt_or_ge l.length cap with hlt | hge
      · rw [List.take_of_length_le (by omega)]
        refine ⟨fun hy => ⟨hy, ?_, fun hc => by omega⟩, And.left⟩
        intro hxy
        exact hx (hxy ▸ List.mem_map_of_mem hy)
      · -- the list is full: its last element goes
        obtain ⟨z, hz⟩ : ∃ z, l.getLast? = some z := by
          cases hl : l.getLast? with
          | some z => exact ⟨z, rfl⟩
          | none =>
            rw [List.getLast?_eq_none_iff.1 hl, List.length_nil] at hge
            omega
        obtain ⟨l', rfl⟩ : ∃ l', l = l' ++ [z] := ⟨_, (List.dropLast_append_getLast? z hz).symm⟩
        have hlen : l'.length = cap - 1 := by
          have := h.1
          simp only [List.length_append, List.length_singleton] at hge this
          omega
        rw [← hlen, List.take_left]
        have hd := h.2
        rw [List.map_append, List.map_singleton, List.nodup_append] at hd
        constructor
        · intro hy
          have hyz : key y ≠ key z := hd.2.2 _ (List.mem_map_of_mem hy) _ (List.mem_singleton_self _)
          refine ⟨List.mem_append_left _ hy, ?_, ?_⟩
          · intro hxy
            exact hx (hxy ▸ List.mem_map_of_mem (List.mem_append_left _ hy))
          · rintro ⟨-, -, w, hw, hwy⟩
            rw [hz] at hw
            cases hw
            exact hyz hwy.symm
        · rintro ⟨hy, -, hc⟩
          rcases List.mem_append.1 hy with hy | hy
          · exact hy
          · cases List.mem_singleton.1 hy
            exact absurd ⟨hx, hge, _, hz, rfl⟩ hc

/-- An element is there if it was added and nothing took it away since. -/
theorem mem_applyAll (hcap : 0 < cap) : y ∈ applyAll key cap ops ↔ ∃ pre post, ops = pre ++ .add y :: post ∧
    ∀ p op q, post = p ++ op :: q → ¬ Clears key cap (applyAll key cap (pre ++ .add y :: p)) (key y) op := by
  induction ops using List.reverseRecOn with
  | nil => simp [applyAll]
  | append_singleton ops op ih =>
    rw [applyAll_snoc, mem_apply hcap fits_applyAll, ih]
    constructor
    · rintro (rfl | ⟨⟨pre, post, rfl, h⟩, hc⟩)
      · exact ⟨ops, [], rfl, by simp⟩
      · refine ⟨pre, post ++ [op], by simp, ?_⟩
        intro p op' q hq
        rcases List.eq_nil_or_concat q with rfl | ⟨q, op'', rfl⟩
        · obtain ⟨rfl, hop⟩ := List.append_inj' hq rfl
          cases hop
          exact hc
        · refine h p op' q ?_
          rw [List.concat_eq_append, ← List.cons_append, ← List.append_assoc] at hq
          exact (List.append_inj' hq rfl).1
    · rintro ⟨pre, post, he, h⟩
      rcases List.eq_nil_or_concat post with rfl | ⟨post, op', rfl⟩
      · obtain ⟨-, hop⟩ := List.append_inj' he rfl
        cases hop
        exact Or.inl rfl
      · rw [List.concat_eq_append, ← List.cons_append, ← List.append_assoc] at he
        obtain ⟨rfl, hop⟩ := List.append_inj' he rfl
        cases hop
        refine Or.inr ⟨⟨pre, post, rfl, ?_⟩, h post op [] (by simp)⟩
        rintro p op' q rfl
        exact h p op' (q ++ [op]) (by simp)

/-- The elements are in the order of their last additions. -/
theorem applyAll_sorted (key : α → κ) (cap : Nat) (ops : List (Op α κ)) :
    (applyAll key cap ops).Pairwise fun x y => lastAdd key ops (key y) < lastAdd key ops (key x) := by
  induction ops using List.reverseRecOn with
  | nil => simp [applyAll]
  | append_singleton ops op ih =>
    rw [applyAll_snoc]
    cases op with
    | remove k =>
      simp only [lastAdd_snoc, adds, Bool.false_eq_true, if_false]
      exact ih.sublist drop_sublist
    | keep =>
      simp only [lastAdd_snoc, adds, Bool.false_eq_true, if_false]
      exact ih
    | add x =>
      simp only [apply, touch, lastAdd_snoc, adds, decide_eq_true_eq]
      refine List.Pairwise.sublist (List.take_sublist _ _) (List.pairwise_cons.2 ⟨?_, ?_⟩)
      · intro y hy
        rw [if_neg (mem_drop.1 hy).2.symm, if_pos rfl]
        exact Nat.lt_succ_of_le lastAdd_le
      · refine (ih.sublist drop_sublist).imp_of_mem ?_
        intro y z hy hz hyz
        rwa [if_neg (mem_drop.1 hy).2.symm, if_neg (mem_drop.1 hz).2.symm]

end Mru
