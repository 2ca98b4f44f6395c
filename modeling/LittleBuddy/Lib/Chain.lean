import Mathlib.Data.List.Basic
import Mathlib.Data.List.Nodup
import Mathlib.Logic.Function.Basic
/-!
# Singly linked lists in a pool

A pool is a set of cells with a `next` pointer each (`none` is the null
pointer). `Seg next p l e` says that following `next` from `p` visits exactly
the cells of `l` and arrives at the pointer `e`; `Chain` is a segment that ends
at null. A C loop over such a list is a recursion with fuel; the lemmas here
turn it into a recursion over `l`.
-/

namespace LinkedPool

variable {α : Type}

/-- From `p`, `next` visits the cells `l` and arrives at `e`. -/
def Seg (next : α → Option α) : Option α → List α → Option α → Prop
  | p, [], e => p = e
  | p, a :: l, e => p = some a ∧ Seg next (next a) l e

/-- A null-terminated list: it is finite and acyclic. -/
def Chain (next : α → Option α) (p : Option α) (l : List α) : Prop := Seg next p l none

section Seg
variable {next next' : α → Option α}

@[simp] theorem seg_nil {p e : Option α} : Seg next p [] e ↔ p = e := Iff.rfl

@[simp] theorem seg_cons {p e : Option α} {a : α} {l : List α} :
    Seg next p (a :: l) e ↔ p = some a ∧ Seg next (next a) l e := Iff.rfl

@[simp] theorem chain_nil {p : Option α} : Chain next p [] ↔ p = none := Iff.rfl

@[simp] theorem chain_cons {p : Option α} {a : α} {l : List α} :
    Chain next p (a :: l) ↔ p = some a ∧ Chain next (next a) l := Iff.rfl

theorem seg_append {l₁ l₂ : List α} {p e : Option α} :
    Seg next p (l₁ ++ l₂) e ↔ ∃ q, Seg next p l₁ q ∧ Seg next q l₂ e := by
  induction l₁ generalizing p with
  | nil => simp
  | cons a l₁ ih => simp [ih, and_assoc]

/-- Only the `next` pointers of the visited cells matter. -/
theorem Seg.congr {l : List α} {p e : Option α} (h : Seg next p l e) (hn : ∀ a ∈ l, next' a = next a) :
    Seg next' p l e := by
  induction l generalizing p with
  | nil => exact h
  | cons a l ih =>
    obtain ⟨hp, hl⟩ := h
    refine ⟨hp, ?_⟩
    rw [hn a (by simp)]
    exact ih hl (fun b hb => hn b (by simp [hb]))

theorem Chain.congr {l : List α} {p : Option α} (h : Chain next p l) (hn : ∀ a ∈ l, next' a = next a) :
    Chain next' p l :=
  Seg.congr h hn

theorem Chain.head_eq {l : List α} {p : Option α} (h : Chain next p l) : p = l.head? := by
  cases l with
  | nil => exact h
  | cons a l => exact h.1

theorem Chain.unique {l l' : List α} {p : Option α} (h : Chain next p l) (h' : Chain next p l') : l = l' := by
  induction l generalizing p l' with
  | nil =>
    cases l' with
    | nil => rfl
    | cons b l' => have := h.symm.trans h'.1; cases this
  | cons a l ih =>
    cases l' with
    | nil => have := h.1.symm.trans h'; cases this
    | cons b l' =>
      have hab : some a = some b := h.1.symm.trans h'.1
      cases hab
      rw [ih h.2 h'.2]

/-- A segment ends at one pointer. -/
theorem Seg.end_unique {l : List α} {p e e' : Option α} (h : Seg next p l e) (h' : Seg next p l e') : e = e' := by
  induction l generalizing p with
  | nil => exact h.symm.trans h'
  | cons a l ih => exact ih h.2 h'.2

/-- Redirecting the last cell of a segment redirects where the segment ends. -/
theorem Seg.relink {l : List α} {p e : Option α} {a : α} (h : Seg next p l e) (hl : l.getLast? = some a)
    (hn : ∀ b ∈ l, b ≠ a → next' b = next b) (hd : l.Nodup) : Seg next' p l (next' a) := by
  induction l generalizing p with
  | nil => simp at hl
  | cons b l ih =>
    obtain ⟨hp, hs⟩ := h
    refine ⟨hp, ?_⟩
    cases l with
    | nil =>
      simp only [List.getLast?_singleton, Option.some.injEq] at hl
      rw [hl]; rfl
    | cons c l =>
      have hl' : (c :: l).getLast? = some a := by simpa using hl
      have hba : b ≠ a := by
        rintro rfl
        exact (List.nodup_cons.1 hd).1 (List.mem_of_getLast? hl')
      rw [hn b (by simp) hba]
      exact ih hs hl' (fun d hd' => hn d (by simp [hd'])) (List.nodup_cons.1 hd).2

theorem Chain.nodup {l : List α} {p : Option α} (h : Chain next p l) : l.Nodup := by
  induction l generalizing p with
  | nil => exact List.nodup_nil
  | cons a l ih =>
    refine List.nodup_cons.2 ⟨fun ha => ?_, ih h.2⟩
    -- what follows `a` in `l` would be what follows `a` at the front
    obtain ⟨l₁, l₂, rfl⟩ := List.append_of_mem ha
    obtain ⟨q, -, hq⟩ := seg_append.1 h.2
    have hlen := congrArg List.length (Chain.unique ⟨rfl, hq.2⟩ ⟨rfl, h.2⟩ : a :: l₂ = a :: (l₁ ++ a :: l₂))
    simp only [List.length_cons, List.length_append] at hlen
    omega

/-! ### Lists that are changed -/

/-- A list that is changed behind `a`. -/
theorem Chain.relink {l₁ l₂ l : List α} {p : Option α} {a : α} (h : Chain next p (l₁ ++ l₂))
    (hl : l₁.getLast? = some a) (hn : ∀ b ∈ l₁, b ≠ a → next' b = next b) (hc : Chain next' (next' a) l) :
    Chain next' p (l₁ ++ l) := by
  obtain ⟨q, hq, -⟩ := seg_append.1 h
  exact seg_append.2 ⟨_, hq.relink hl hn (List.nodup_append.1 h.nodup).1, hc⟩

/-- What is behind the last cell of a segment. -/
theorem Chain.behind {l₁ l₂ : List α} {p : Option α} {a : α} (h : Chain next p (l₁ ++ l₂))
    (hl : l₁.getLast? = some a) : Chain next (next a) l₂ := by
  obtain ⟨q, hq, h₂⟩ := seg_append.1 h
  have := hq.relink hl (fun _ _ _ => rfl) (List.nodup_append.1 h.nodup).1
  rwa [hq.end_unique this] at h₂

section Update
variable [DecidableEq α]

theorem Chain.update_of_notMem {l : List α} {p q : Option α} {a : α} (h : Chain next p l) (ha : a ∉ l) :
    Chain (Function.update next a q) p l :=
  h.congr fun b hb => Function.update_of_ne (fun he : b = a => ha (he ▸ hb)) _ _

theorem Chain.push {l : List α} {p : Option α} {a : α} (h : Chain next p l) (ha : a ∉ l) :
    Chain (Function.update next a p) (some a) (a :: l) := by
  refine ⟨rfl, ?_⟩
  rw [Function.update_self]
  exact h.update_of_notMem ha

/-- The list ends at `a` now, and what was behind it is a list on its own. -/
theorem Chain.cut {l₁ l₂ : List α} {p : Option α} {a : α} (h : Chain next p (l₁ ++ l₂)) (hl : l₁.getLast? = some a) :
    Chain (Function.update next a none) p l₁ ∧ Chain (Function.update next a none) l₂.head? l₂ := by
  have ha : a ∉ l₂ := fun ha =>
    (List.nodup_append.1 h.nodup).2.2 a (List.mem_of_getLast? hl) a ha rfl
  constructor
  · have hn : ∀ b ∈ l₁, b ≠ a → Function.update next a none b = next b :=
      fun b _ hb => Function.update_of_ne hb _ _
    have hend : Chain (Function.update next a none) (Function.update next a none a) [] := by
      rw [Function.update_self]
      rfl
    have := h.relink hl hn hend
    rwa [List.append_nil] at this
  · have hb := h.behind hl
    rw [hb.head_eq] at hb
    exact hb.update_of_notMem ha

/-- `i` is put in behind `a`. -/
theorem Chain.insert {l₁ l₂ : List α} {p : Option α} {a i : α} (h : Chain next p (l₁ ++ l₂))
    (hl : l₁.getLast? = some a) (hi : i ∉ l₁ ++ l₂) :
    Chain (Function.update (Function.update next a (some i)) i l₂.head?) p (l₁ ++ i :: l₂) := by
  have ha := List.mem_of_getLast? hl
  have hai : a ≠ i := fun he => hi (List.mem_append_left _ (he ▸ ha))
  have hb := h.behind hl
  rw [hb.head_eq] at hb
  refine h.relink hl (fun b hbl hba => ?_) ?_
  · have hbi : b ≠ i := fun he => hi (List.mem_append_left _ (he ▸ hbl))
    rw [Function.update_of_ne hbi, Function.update_of_ne hba]
  · rw [Function.update_of_ne hai, Function.update_self]
    refine (hb.update_of_notMem fun ha₂ => ?_).push fun hi₂ => hi (List.mem_append_right _ hi₂)
    exact (List.nodup_append.1 h.nodup).2.2 a ha a ha₂ rfl

/-- `i`, which is behind `a`, is taken out. -/
theorem Chain.remove {l₁ l₂ : List α} {p : Option α} {a i : α} (h : Chain next p (l₁ ++ i :: l₂))
    (hl : l₁.getLast? = some a) : Chain (Function.update next a (next i)) p (l₁ ++ l₂) := by
  refine h.relink hl (fun b _ hb => Function.update_of_ne hb _ _) ?_
  rw [Function.update_self]
  have hi : Chain next (next i) l₂ := (h.behind hl).2
  refine hi.update_of_notMem fun ha => ?_
  exact (List.nodup_append.1 h.nodup).2.2 a (List.mem_of_getLast? hl) a (List.mem_cons_of_mem _ ha) rfl

end Update

end Seg

/-- The cells visited from `p`, or `none` if more than `fuel` of them are met. -/
def collect (next : α → Option α) : Nat → Option α → Option (List α)
  | _, none => some []
  | 0, some _ => none
  | fuel + 1, some a => (collect next fuel (next a)).map (a :: ·)

theorem collect_of_chain {next : α → Option α} {l : List α} {p : Option α} (h : Chain next p l) {fuel : Nat}
    (hf : l.length ≤ fuel) : collect next fuel p = some l := by
  induction l generalizing p fuel with
  | nil => cases fuel <;> simp_all [collect, chain_nil]
  | cons a l ih =>
    obtain ⟨rfl, h⟩ := h
    cases fuel with
    | zero => simp at hf
    | succ fuel => simp [collect, ih h (by simpa using hf)]

theorem chain_of_collect {next : α → Option α} {fuel : Nat} {p : Option α} {l : List α}
    (h : collect next fuel p = some l) : Chain next p l := by
  induction fuel generalizing p l with
  | zero => cases p <;> simp_all [collect]
  | succ fuel ih =>
    cases p with
    | none => simp_all [collect]
    | some a =>
      simp only [collect, Option.map_eq_some_iff] at h
      obtain ⟨l', hl', rfl⟩ := h
      exact ⟨rfl, ih hl'⟩

/-! ## Loops over a list

`while (tmp) { node = tmp; tmp = node->next; body }` with a loop state `σ`; the
body may leave the loop with a result `ρ`. -/

section Walk
variable {σ ρ : Type}

/-- The loop from pointer `p` with at most `fuel` iterations; `none` when it
has not ended by then. The body sees the node and its `next` pointer. -/
def walk (next : α → Option α) (body : σ → α → Option α → ρ ⊕ σ) : Nat → σ → Option α → Option (ρ ⊕ σ)
  | _, s, none => some (.inr s)
  | 0, _, some _ => none
  | fuel + 1, s, some a =>
    match body s a (next a) with
    | .inl r => some (.inl r)
    | .inr s' => walk next body fuel s' (next a)

/-- The same loop over the list of nodes. -/
def walkList (body : σ → α → Option α → ρ ⊕ σ) : σ → List α → ρ ⊕ σ
  | s, [] => .inr s
  | s, a :: l =>
    match body s a l.head? with
    | .inl r => .inl r
    | .inr s' => walkList body s' l

theorem walk_of_chain {next : α → Option α} (body : σ → α → Option α → ρ ⊕ σ) {l : List α} {p : Option α}
    (h : Chain next p l) {fuel : Nat} (hf : l.length ≤ fuel) (s : σ) :
    walk next body fuel s p = some (walkList body s l) := by
  induction l generalizing p fuel s with
  | nil => cases fuel <;> simp_all [walk, walkList]
  | cons a l ih =>
    have hc : Chain next (next a) l := h.2
    cases h.1
    cases fuel with
    | zero => simp at hf
    | succ fuel =>
      have hn : next a = l.head? := hc.head_eq
      simp only [walk, walkList, ← hn]
      cases body s a (next a) with
      | inl r => rfl
      | inr s' => exact ih hc (by simpa using hf) s'

/-- A loop that searches for the first node satisfying `t`. -/
theorem walkList_search {t : α → Bool} {r : α → ρ} {body : Unit → α → Option α → ρ ⊕ Unit}
    (h : ∀ a tmp, body () a tmp = if t a then .inl (r a) else .inr ()) (l : List α) :
    walkList body () l = (l.find? t).elim (.inr ()) fun a => .inl (r a) := by
  induction l with
  | nil => rfl
  | cons a l ih =>
    rw [walkList, h, List.find?_cons]
    cases t a with
    | true => rfl
    | false => exact ih

/-- The cells that at most `fuel` steps from `p` meet, also in a list without an end. -/
def visited (next : α → Option α) : Nat → Option α → List α
  | _, none => []
  | 0, some _ => []
  | fuel + 1, some a => a :: visited next fuel (next a)

theorem visited_of_collect {next : α → Option α} {fuel : Nat} {p : Option α} {l : List α}
    (h : collect next fuel p = some l) : visited next fuel p = l := by
  induction fuel generalizing p l with
  | zero => cases p <;> simp_all [collect, visited]
  | succ fuel ih =>
    cases p with
    | none => simp_all [collect, visited]
    | some a =>
      obtain ⟨l', hl, rfl⟩ := Option.map_eq_some_iff.1 h
      rw [visited, ih hl]

/-- The search in any list: it stops at the first cell that satisfies `t`, or
needs the end of the list. -/
theorem walk_search {next : α → Option α} {t : α → Bool} {r : α → ρ} {body : Unit → α → Option α → ρ ⊕ Unit}
    (h : ∀ a tmp, body () a tmp = if t a then .inl (r a) else .inr ()) (fuel : Nat) (p : Option α) :
    walk next body fuel () p = ((visited next fuel p).find? t).elim
      ((collect next fuel p).map fun _ => .inr ()) fun a => some (.inl (r a)) := by
  induction fuel generalizing p with
  | zero => cases p <;> rfl
  | succ fuel ih =>
    cases p with
    | none => rfl
    | some a =>
      rw [walk, h, visited, List.find?_cons, collect]
      cases t a with
      | true => rfl
      | false =>
        simp only [Bool.false_eq_true, if_false, ih, Option.map_map]
        rfl

/-- Following `next` from a pointer meets the cell, in any list. -/
inductive Reaches (next : α → Option α) : Option α → α → Prop
  | here {a : α} : Reaches next (some a) a
  | step {a b : α} : Reaches next (next a) b → Reaches next (some a) b

/-- Cutting a list reaches nothing new. -/
theorem Reaches.of_cut {next next' : α → Option α} {p : Option α} {b : α} (h : Reaches next' p b)
    (hn : ∀ a, next' a = next a ∨ next' a = none) : Reaches next p b := by
  induction h with
  | here => exact .here
  | @step a b _ ih =>
    rcases hn a with he | he
    · exact .step (he ▸ ih)
    · rw [he] at ih
      cases ih

theorem Reaches.mem_of_chain {next : α → Option α} {p : Option α} {b : α} {l : List α} (h : Reaches next p b)
    (hc : Chain next p l) : b ∈ l := by
  induction h generalizing l with
  | here =>
    cases l with
    | nil => cases hc
    | cons a l =>
      cases hc.1
      exact List.mem_cons_self
  | step _ ih =>
    cases l with
    | nil => cases hc
    | cons a l =>
      cases hc.1
      exact List.mem_cons_of_mem _ (ih hc.2)

/-- Only the cells that are reached matter to a loop. -/
theorem walk_congr {next next' : α → Option α} {body body' : σ → α → Option α → ρ ⊕ σ} {p : Option α}
    (h : ∀ a, Reaches next p a → next' a = next a ∧ ∀ s q, body' s a q = body s a q) (fuel : Nat) (s : σ) :
    walk next' body' fuel s p = walk next body fuel s p := by
  induction fuel generalizing s p with
  | zero => cases p <;> rfl
  | succ fuel ih =>
    cases p with
    | none => rfl
    | some a =>
      obtain ⟨hn, hb⟩ := h a .here
      rw [walk, walk, hn, hb]
      cases body s a (next a) with
      | inl r => rfl
      | inr s' => exact ih (fun b hb => h b (.step hb)) s'

/-- What holds of a loop's state from the start and at every cell it reaches. -/
theorem walk_inv {next : α → Option α} {body : σ → α → Option α → ρ ⊕ σ} {I : σ → Prop} {J : ρ → Prop} {p : Option α}
    (h : ∀ s a q, Reaches next p a → I s → Sum.elim J I (body s a q)) {fuel : Nat} {s : σ} (hs : I s) {x : ρ ⊕ σ}
    (hx : walk next body fuel s p = some x) : Sum.elim J I x := by
  induction fuel generalizing s p with
  | zero =>
    cases p with
    | none =>
      cases hx
      exact hs
    | some a => cases hx
  | succ fuel ih =>
    cases p with
    | none =>
      cases hx
      exact hs
    | some a =>
      have hb := h s a (next a) .here hs
      rw [walk] at hx
      cases hbody : body s a (next a) with
      | inl r =>
        rw [hbody] at hx hb
        cases hx
        exact hb
      | inr s' =>
        rw [hbody] at hx hb
        exact ih (fun t b q hr => h t b q (.step hr)) hb hx

/-- A loop that counts the nodes satisfying `c`. -/
theorem walkList_count {c : α → Bool} {l : List α} (n : Nat) :
    walkList (ρ := Empty) (fun n a _ => .inr (if c a then n + 1 else n)) n l = .inr (n + l.countP c) := by
  induction l generalizing n with
  | nil => rfl
  | cons a l ih =>
    rw [walkList, List.countP_cons]
    simp only
    rw [ih]
    cases c a with
    | true => simp [Nat.add_assoc, Nat.add_comm 1]
    | false => simp

end Walk

end LinkedPool
