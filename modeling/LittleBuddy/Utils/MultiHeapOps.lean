import LittleBuddy.Utils.MultiHeapBlocks
/-!
# Merging and splitting blocks

What `merge_adjacent` and `split_if_necessary` do to a heap of blocks.
-/
open BlockHeap

namespace MultiHeap

variable {s s' : Heap} {l r : List Block} {n m size : Nat}

/-! ## Merging -/

/-- One of two neighbours is free: it is taken out of the free list, and the other one gets its place. -/
def mergedUsed (s : Heap) (l : List Block) (nf stop k : Nat) : Heap :=
  { (s.setNextFree (prevFree s l) nf).setHeader (blockAt s l) stop with free_bytes := s.free_bytes - k }

theorem takeFree_eq (h : Inv s (l ++ ⟨m, true⟩ :: r)) : takeFree s (blockAt s l) = .ok
    { s.setNextFree (prevFree s l) (BlockHeap.nextFree 4 s.last_block (blockAt s l + 4 + m) r) with
      free_bytes := s.free_bytes - m } := by
  have hlt := h.prevFree_lt
  have hend := h.end_eq
  rw [span_cons] at hend
  have hnf := (nextFree_bounds (h := 4) (a := blockAt s l + 4 + m) (e := s.last_block) (l := r) (by
    simp only at hend; omega)).1
  rw [takeFree, h.getPrevFreeBlock, ok_bind, ensure_of (by rw [h.nextFree_eq]; omega), ok_bind, h.nextFree_eq,
    h.header.blockDataSize]

theorem mergedUsed_replaces {fa fb : Bool} {k : Nat} (h : Inv s (l ++ ([⟨n, fa⟩, ⟨m, fb⟩] ++ r)))
    (hk : k = freeLen [⟨n, fa⟩, ⟨m, fb⟩]) :
    Replaces s (mergedUsed s l (BlockHeap.nextFree 4 s.last_block (blockAt s l + 4 + n + 4 + m) r)
      (blockAt s l + 4 + n + 4 + m) k) l [⟨n, fa⟩, ⟨m, fb⟩] [⟨n + 4 + m, false⟩] r := by
  have hlt := h.prevFree_lt
  obtain ⟨⟨hn, hn0⟩, -, -, ⟨hm, hm0⟩, -⟩ := h.laid_behind
  simp only at hn hn0 hm hm0
  have hle : k ≤ s.free_bytes := by
    rw [h.free, freeLen_append, freeLen_append, ← hk]
    omega
  apply h.replace
  · simp only [span_cons, span_nil]
    omega
  · intro x hx
    simp only [mergedUsed, Heap.setHeader, Heap.setNextFree]
    obtain ⟨h₁, h₂⟩ := hx
    rw [Function.update_of_ne, Function.update_of_ne h₁]
    simp only [span_cons, span_nil] at h₂
    omega
  · simp only [mergedUsed, Heap.setHeader, Heap.setNextFree, Heap.nextFree]
    rw [Function.update_of_ne (by omega), Function.update_self, List.singleton_append, nextFree_used]
    congr 1
    omega
  · refine ⟨⟨by simp only; omega, by simp only; omega⟩, ?_, by simp, trivial⟩
    simp only [mergedUsed, Heap.setHeader, Heap.setNextFree, Function.update_self, headerWord, Bool.false_eq_true,
      if_false]
    omega
  · rfl
  · rfl
  · rfl
  · simp only [mergedUsed, Heap.setHeader, Heap.setNextFree, ← hk, freeLen_cons, freeLen_nil, Bool.false_eq_true, if_false]
    omega

/-- `merge_adjacent` of two neighbours, one of which is free. -/
theorem mergeAdjacent_used {fa fb : Bool} (h : Inv s (l ++ ([⟨n, fa⟩, ⟨m, fb⟩] ++ r))) (hf : fa ≠ fb) :
    mergeAdjacent (blockAt s l) (blockAt s l + 4 + n) s = .ok (blockAt s l,
      mergedUsed s l (BlockHeap.nextFree 4 s.last_block (blockAt s l + 4 + n + 4 + m) r)
        (blockAt s l + 4 + n + 4 + m) (freeLen [⟨n, fa⟩, ⟨m, fb⟩])) := by
  have hlt := h.prevFree_lt
  have hfirst := h.first_lt
  have ha : Header s (blockAt s l) ⟨n, fa⟩ := h.header
  have hb : Header s (blockAt s l + 4 + n) ⟨m, fb⟩ := h.header_next
  have hne : ¬ isFirstBlock s (blockAt s l) = true := by
    simp only [isFirstBlock, decide_eq_true_eq]
    omega
  have hboth : ¬ (isFree s (blockAt s l) = true ∧ isFree s (blockAt s l + 4 + n) = true) := by
    rw [ha.isFree, hb.isFree]
    rintro ⟨rfl, rfl⟩
    exact hf rfl
  have hone : isFree s (blockAt s l) = true ∨ isFree s (blockAt s l + 4 + n) = true := by
    rw [ha.isFree, hb.isFree]
    cases fa with
    | true => exact .inl rfl
    | false => exact .inr (by cases fb; exact absurd rfl hf; rfl)
  have htake : takeFree s (if isFree s (blockAt s l) = true then blockAt s l else blockAt s l + 4 + n) = .ok
      { s.setNextFree (prevFree s l) (BlockHeap.nextFree 4 s.last_block (blockAt s l + 4 + n + 4 + m) r) with
        free_bytes := s.free_bytes - freeLen [⟨n, fa⟩, ⟨m, fb⟩] } := by
    rw [ha.isFree]
    cases fa with
    | true =>
      cases fb with
      | true => exact absurd rfl hf
      | false =>
        rw [if_pos rfl, takeFree_eq (m := n) (r := ⟨m, false⟩ :: r) h]
        simp
    | false =>
      cases fb with
      | false => exact absurd rfl hf
      | true =>
        have h' : Inv s ((l ++ [⟨n, false⟩]) ++ ⟨m, true⟩ :: r) := by rwa [List.append_assoc]
        have := takeFree_eq h'
        rw [blockAt_concat, prevFree_concat] at this
        rw [if_neg (by simp), this]
        simp
  rw [mergeAdjacent, ensure_of (by omega), ok_bind, if_neg (by rw [hb.isLastBlock]; simp), if_neg hne,
    ha.getNextBlock, ok_bind, ensure_of rfl, ok_bind, if_neg hboth, if_pos hone, htake, ok_bind]
  have hword : align (({ s.setNextFree (prevFree s l)
        (BlockHeap.nextFree 4 s.last_block (blockAt s l + 4 + n + 4 + m) r) with
        free_bytes := s.free_bytes - freeLen [⟨n, fa⟩, ⟨m, fb⟩] } : Heap).header (blockAt s l + 4 + n)) =
      blockAt s l + 4 + n + 4 + m := by
    rw [← hb.align_header]
    simp only [Heap.header, Heap.setNextFree]
    rw [Function.update_of_ne (by omega)]
  simp only [hword]
  rw [ensure_of, ok_bind]
  · rfl
  · simp only [Heap.header, Heap.setHeader, Function.update_self]
    omega

/-- `merge_adjacent` of two free neighbours. -/
theorem mergeAdjacent_free (h : Inv s (l ++ ([⟨n, true⟩, ⟨m, true⟩] ++ r))) :
    ∃ s', mergeAdjacent (blockAt s l) (blockAt s l + 4 + n) s = .ok (blockAt s l, s') ∧
      Replaces s s' l [⟨n, true⟩, ⟨m, true⟩] [⟨n + 4 + m, true⟩] r := by
  have hlt := h.prevFree_lt
  have hfirst := h.first_lt
  have hend := h.end_eq
  obtain ⟨⟨hn, hn0⟩, -, -, ⟨hm, hm0⟩, -⟩ := h.laid_behind
  simp only at hn hn0 hm hm0
  have ha : Header s (blockAt s l) ⟨n, true⟩ := h.header
  have hb : Header s (blockAt s l + 4 + n) ⟨m, true⟩ := h.header_next
  have hnb : s.nextFree (blockAt s l + 4 + n) =
      BlockHeap.nextFree 4 s.last_block (blockAt s l + 4 + n + 4 + m) r := h.nextFree_next
  have hnf := (nextFree_bounds (h := 4) (a := blockAt s l + 4 + n + 4 + m) (e := s.last_block) (l := r) (by
    simp only [span_append, span_cons, span_nil] at hend; omega)).1
  have hne : ¬ isFirstBlock s (blockAt s l) = true := by
    simp only [isFirstBlock, decide_eq_true_eq]
    omega
  have hcopy : ∀ v w : Nat, ((s.setHeader (blockAt s l) v).setHeader (blockAt s l) w).nextFree (blockAt s l + 4 + n) =
      s.nextFree (blockAt s l + 4 + n) := by
    intro v w
    simp only [Heap.nextFree, Heap.setHeader]
    rw [Function.update_of_ne (by omega), Function.update_of_ne (by omega)]
  rw [mergeAdjacent, ensure_of (by omega), ok_bind, if_neg (by rw [hb.isLastBlock]; simp), if_neg hne,
    ha.getNextBlock, ok_bind, ensure_of rfl, ok_bind, if_pos ⟨ha.isFree, hb.isFree⟩]
  simp only [hb.align_header]
  have hword : (s.setHeader (blockAt s l) (blockAt s l + 4 + n + 4 + m)).header (blockAt s l) =
      blockAt s l + 4 + n + 4 + m := by
    simp only [Heap.header, Heap.setHeader, Function.update_self]
  rw [hword, ensure_of (by omega), ok_bind, hcopy, hnb, ensure_of (by omega), ok_bind]
  refine ⟨_, rfl, ?_⟩
  apply h.replace
  · simp only [span_cons, span_nil]
    omega
  · intro x hx
    simp only [Heap.setHeader, Heap.setNextFree]
    obtain ⟨h₁, h₂⟩ := hx
    simp only [span_cons, span_nil] at h₂
    rw [Function.update_of_ne (by omega), Function.update_of_ne (by omega), Function.update_of_ne (by omega)]
  · have hlink := h.nextFree_prev
    simp only [Heap.setHeader, Heap.setNextFree, Heap.nextFree] at hlink ⊢
    rw [Function.update_of_ne (by omega), Function.update_of_ne (by omega), Function.update_of_ne (by omega), hlink,
      List.cons_append, nextFree_free]
    rfl
  · refine ⟨⟨by simp only; omega, by simp only; omega⟩, ?_, fun _ => ?_, trivial⟩
    · simp only [Heap.setHeader, Heap.setNextFree]
      rw [Function.update_of_ne (by omega), Function.update_self, orFree_of_dvd (by have := ha.addr; omega), headerWord]
      simp only [if_true]
      omega
    · simp only [Heap.setHeader, Heap.setNextFree, Function.update_self, span_cons, span_nil]
      rw [BlockHeap.nextFree]
      congr 1
      omega
  · rfl
  · rfl
  · rfl
  · simp only [Heap.setHeader, freeLen_cons, freeLen_nil, if_true]
    omega

/-! ## What a call leaves as it was -/

/-- The contents of the blocks, and the bounds of the heap. -/
structure Frame (s s' : Heap) (blocks : List (Nat × Nat)) : Prop where
  keeps : Keeps s s' blocks
  first : s'.first_block = s.first_block
  last : s'.last_block = s.last_block
  total : s'.total_bytes = s.total_bytes

section Frame
variable {s₁ : Heap} {blocks blocks' : List (Nat × Nat)}

theorem Frame.refl (s : Heap) (blocks : List (Nat × Nat)) : Frame s s blocks := ⟨Keeps.refl s blocks, rfl, rfl, rfl⟩

theorem Frame.trans (h : Frame s s₁ blocks) (h' : Frame s₁ s' blocks) : Frame s s' blocks :=
  ⟨h.keeps.trans h'.keeps, h'.first.trans h.first, h'.last.trans h.last, h'.total.trans h.total⟩

theorem Frame.subset (h : Frame s s' blocks) (hs : ∀ p ∈ blocks', p ∈ blocks) : Frame s s' blocks' :=
  { h with keeps := h.keeps.subset hs }

theorem Frame.shrink {p : Nat} (h : Frame s s' ((p, m) :: blocks)) (hn : n ≤ m) : Frame s s' ((p, n) :: blocks) := by
  refine ⟨fun q hq x h₁ h₂ => ?_, h.first, h.last, h.total⟩
  rcases List.mem_cons.1 hq with rfl | hq
  · exact h.keeps (p, m) List.mem_cons_self x h₁ (Nat.lt_of_lt_of_le h₂ (Nat.add_le_add_left hn _))
  · exact h.keeps q (List.mem_cons_of_mem _ hq) x h₁ h₂

theorem Frame.blockAt (h : Frame s s' blocks) (l : List Block) : blockAt s' l = blockAt s l := by
  rw [MultiHeap.blockAt, MultiHeap.blockAt, h.first]

theorem Frame.usedBlocks (h : Frame s s' blocks) (l : List Block) : usedBlocks s' l = usedBlocks s l := by
  rw [MultiHeap.usedBlocks, MultiHeap.usedBlocks, h.blockAt]

theorem Replaces.frame {a b : List Block} (h : Replaces s s' l a b r) :
    Frame s s' (MultiHeap.usedBlocks s l ++ used 4 (MultiHeap.blockAt s l + span 4 a) r) :=
  ⟨h.keeps, h.first, h.last, h.total⟩

end Frame

/-- `merge_adjacent` of two neighbours that are not both in use. -/
theorem mergeAdjacent_spec {fa fb : Bool} (h : Inv s (l ++ ([⟨n, fa⟩, ⟨m, fb⟩] ++ r))) (hf : fa = true ∨ fb = true) :
    ∃ s', mergeAdjacent (blockAt s l) (blockAt s l + 4 + n) s = .ok (blockAt s l, s') ∧
      Inv s' (l ++ ([⟨n + 4 + m, fa && fb⟩] ++ r)) ∧
      Frame s s' (usedBlocks s (l ++ ([⟨n, fa⟩, ⟨m, fb⟩] ++ r))) := by
  by_cases hne : fa = fb
  · obtain rfl : fa = true := by rcases hf with hf | hf <;> simp_all
    subst hne
    obtain ⟨s', heq, hrep⟩ := mergeAdjacent_free h
    refine ⟨s', heq, hrep.inv, ?_⟩
    rw [usedBlocks_append, used_append, used_cons_free rfl, used_cons_free rfl, used_nil, List.nil_append]
    exact hrep.frame
  · have hlt := h.prevFree_lt
    have hrep := mergedUsed_replaces h rfl
    refine ⟨_, mergeAdjacent_used h hne, ?_, ?_⟩
    · rw [show (fa && fb) = false by cases fa <;> cases fb <;> simp_all]
      exact hrep.inv
    · refine ⟨fun p hp x h₁ h₂ => ?_, rfl, rfl, rfl⟩
      rw [usedBlocks, used_append, used_append] at hp
      rcases List.mem_append.1 hp with hp | hp
      · exact hrep.keeps p (List.mem_append_left _ hp) x h₁ h₂
      · rcases List.mem_append.1 hp with hp | hp
        · have hb := used_bounds hp
          rw [← blockAt_append, List.nil_append] at hb
          simp only [mergedUsed, Heap.setHeader, Heap.setNextFree]
          rw [Function.update_of_ne (by omega), Function.update_of_ne (by omega)]
        · refine hrep.keeps p (List.mem_append_right _ ?_) x h₁ h₂
          rw [← blockAt_append, List.nil_append] at hp
          exact hp

/-- The words of a block in use are written. -/
theorem Inv.store (h : Inv s (l ++ ⟨n, false⟩ :: r))
    (hsame : ∀ x, ¬ (blockAt s l + 4 ≤ x ∧ x < blockAt s l + 4 + n) → s'.mem x = s.mem x)
    (hfirst : s'.first_block = s.first_block) (hlast : s'.last_block = s.last_block)
    (htotal : s'.total_bytes = s.total_bytes) (hfree : s'.free_bytes = s.free_bytes) :
    Replaces s s' l [⟨n, false⟩] [⟨n, false⟩] r := by
  have hlt := h.prevFree_lt
  apply Inv.replace (m := [⟨n, false⟩]) h rfl
  · intro x hx
    have h₂ := hx.2
    simp only [span_cons, span_nil] at h₂
    exact hsame x (by omega)
  · exact (hsame _ (by omega)).trans (Inv.nextFree_prev h)
  · refine ⟨h.laid_behind.1, ?_, by simp, trivial⟩
    rw [hsame _ (by omega)]
    exact h.header.word
  · exact hfirst
  · exact hlast
  · exact htotal
  · rw [hfree]

/-! ## Splitting -/

/-- The blocks behind those of `l`, after `split_if_necessary` of the first of them. -/
def trim (size n : Nat) : List Block → List Block
  | ⟨m, true⟩ :: r => ⟨size, false⟩ :: ⟨m + (n - size), true⟩ :: r
  | r => if n < size + 8 then ⟨n, false⟩ :: r else ⟨size, false⟩ :: ⟨n - size - 4, true⟩ :: r

theorem exists_free_of_head (hr : ¬ ∀ b ∈ r.head?, b.free = false) : ∃ m r', r = ⟨m, true⟩ :: r' := by
  rcases r with _ | ⟨⟨m, _ | _⟩, r⟩
  · exact absurd (by simp) hr
  · exact absurd (by simp) hr
  · exact ⟨m, r, rfl⟩

theorem trim_of_used (hr : ∀ b ∈ r.head?, b.free = false) : trim size n r =
    if n < size + 8 then ⟨n, false⟩ :: r else ⟨size, false⟩ :: ⟨n - size - 4, true⟩ :: r := by
  rcases r with _ | ⟨⟨m, _ | _⟩, r⟩
  · rfl
  · rfl
  · exact absurd (hr _ rfl) (by simp)

theorem used_trim (hs : size ≤ n) (a : Nat) (r : List Block) :
    ∃ n', size ≤ n' ∧ used 4 a (trim size n r) = (a, n') :: used 4 (a + 4 + n) r := by
  by_cases hr : ∀ b ∈ r.head?, b.free = false
  · rw [trim_of_used hr]
    split
    · exact ⟨n, hs, used_cons_used rfl⟩
    · refine ⟨size, Nat.le_refl _, ?_⟩
      rw [used_cons_used rfl, used_cons_free rfl]
      congr 2
      simp only
      omega
  · obtain ⟨m, r, rfl⟩ := exists_free_of_head hr
    refine ⟨size, Nat.le_refl _, ?_⟩
    rw [trim, used_cons_used rfl, used_cons_free rfl, used_cons_free rfl]
    congr 2
    simp only
    omega

theorem coalesced_trim (hl : Coalesced l) (hr : Coalesced r) : Coalesced (l ++ trim size n r) := by
  by_cases hu : ∀ b ∈ r.head?, b.free = false
  · rw [trim_of_used hu]
    split
    · exact hl.middle hr rfl
    · exact hl.middle ⟨fun _ => hu, hr⟩ rfl
  · obtain ⟨m, r, rfl⟩ := exists_free_of_head hu
    exact hl.middle ⟨hr.1, hr.2⟩ rfl

theorem alignUp_of_dvd (hd : 4 ∣ size) (hlt : size + 3 < 2 ^ 32) : alignUp size = size := by
  rw [alignUp, Nat.mod_eq_of_lt hlt, align]
  omega

theorem prevFreeOr_eq {b : Block} {s₁ : Heap} {pf : Option Nat} (h : Inv s (l ++ b :: r))
    (hm : ∀ x, x ≤ blockAt s l → s₁.mem x = s.mem x) (hfirst : s₁.first_block = s.first_block)
    (hlast : s₁.last_block = s.last_block) (hpf : ∀ c ∈ pf, c = prevFree s l) :
    prevFreeOr s₁ (blockAt s l) pf = .ok (prevFree s l) := by
  cases pf with
  | some c => rw [prevFreeOr, hpf c rfl]
  | none =>
    have hlt := h.lt_last
    have hat : blockAt s₁ l = blockAt s l := by rw [blockAt, blockAt, hfirst]
    have hpv : prevFree s₁ l = prevFree s l := by rw [prevFree, prevFree, hfirst]
    have hfree : isFree s₁ (blockAt s l) = b.free := by
      rw [← h.header.isFree, isFree, isFree, Heap.header, Heap.header, hm _ (Nat.le_refl _)]
    rw [prevFreeOr, ← hat, ← hpv]
    refine getPrevFreeBlock_eq (hfirst ▸ h.laid_front.congr fun x _ hx => hm x (Nat.le_of_lt hx)) (hfirst ▸ h.pos)
      (hfirst ▸ h.aligned) (by omega) ?_ fun hf => ?_
    · rw [hat]
      exact (nextFree_bounds (Nat.le_of_eq h.end_eq)).1
    · rw [hat, hfree] at hf
      rw [hat, BlockHeap.nextFree, if_pos hf]

theorem Inv.next_not_free {b : Block} (h : Inv s (l ++ b :: r)) (hr : ∀ c ∈ r.head?, c.free = false) :
    ¬ (isFree s (blockAt s l + 4 + b.len) = true ∧ ¬ isLastBlock s (blockAt s l + 4 + b.len) = true) := by
  rintro ⟨hf, hl⟩
  cases r with
  | nil =>
    have hend := h.end_eq
    rw [span_cons, span_nil] at hend
    rw [show blockAt s l + 4 + b.len = s.last_block by omega, h.isLastBlock_last] at hl
    exact hl rfl
  | cons c r =>
    have hc := Inv.header (l := l ++ [b]) (b := c) (r := r) (by rwa [List.append_assoc])
    rw [blockAt_concat] at hc
    rw [hc.isFree, hr c rfl] at hf
    cases hf

section Split
variable {pf : Option Nat}

/-- The next block is free, and begins earlier now. -/
theorem splitIfNecessary_extend (h : Inv s (l ++ ([⟨n, false⟩, ⟨m, true⟩] ++ r))) (hd : 4 ∣ size) (hpos : 0 < size)
    (hs : size ≤ n) (hpf : ∀ c ∈ pf, c = prevFree s l) :
    ∃ s', splitIfNecessary (blockAt s l) size pf s = .ok s' ∧
      Replaces s s' l [⟨n, false⟩, ⟨m, true⟩] [⟨size, false⟩, ⟨m + (n - size), true⟩] r ∧
      Keeps s s' [(blockAt s l, size)] := by
  have hlt := h.prevFree_lt
  have hfirst := h.first_lt
  have hend := h.end_eq
  have htop := h.top
  obtain ⟨⟨hn, hn0⟩, -, -, ⟨hm, hm0⟩, -⟩ := h.laid_behind
  simp only [span_append, span_cons, span_nil] at hn hn0 hm hm0 hend
  have ha : Header s (blockAt s l) ⟨n, false⟩ := h.header
  have hb : Header s (blockAt s l + 4 + n) ⟨m, true⟩ := h.header_next
  have hbnext : s.nextFree (blockAt s l + 4 + n) =
      BlockHeap.nextFree 4 s.last_block (blockAt s l + 4 + n + 4 + m) r := h.nextFree_next
  have hprev : s.nextFree (prevFree s l) = blockAt s l + 4 + n := h.nextFree_prev
  have hsize : alignUp size = size := alignUp_of_dvd hd (by omega)
  have hne : ¬ isFirstBlock s (blockAt s l) = true := by
    simp only [isFirstBlock, decide_eq_true_eq]
    omega
  have hnew : (s.setHeader (blockAt s l + 4 + size) (s.header (blockAt s l + 4 + n))).nextFree
      (blockAt s l + 4 + n) = s.nextFree (blockAt s l + 4 + n) := by
    simp only [Heap.nextFree, Heap.setHeader]
    rw [Function.update_of_ne (by omega)]
  have hfound : prevFreeOr ((s.setHeader (blockAt s l + 4 + size) (s.header (blockAt s l + 4 + n))).setNextFree
      (blockAt s l + 4 + size) (s.nextFree (blockAt s l + 4 + n))) (blockAt s l) pf = .ok (prevFree s l) := by
    refine prevFreeOr_eq (b := ⟨n, false⟩) (r := ⟨m, true⟩ :: r) h (fun x hx => ?_) rfl rfl hpf
    simp only [Heap.setHeader, Heap.setNextFree]
    rw [Function.update_of_ne (by omega), Function.update_of_ne (by omega)]
  simp only [splitIfNecessary, ha.isFree, ha.blockDataSize, hsize]
  rw [ensure_of (by simp), ok_bind, ensure_of hs, ok_bind, ensure_of hne, ok_bind, ha.isLastBlock, ensure_of (by simp),
    ok_bind, ha.getNextBlock, ok_bind]
  simp only
  rw [if_pos ⟨hb.isFree, by rw [hb.isLastBlock]; simp⟩, hnew, hfound, ok_bind, ensure_of ?_, ok_bind]
  · refine ⟨_, rfl, ?_, ?_⟩
    · apply h.replace
      · simp only [span_cons, span_nil]
        omega
      · intro x hx
        obtain ⟨h₁, h₂⟩ := hx
        simp only [span_cons, span_nil] at h₂
        simp only [Heap.setHeader, Heap.setNextFree]
        rw [Function.update_of_ne (by omega), Function.update_of_ne (by omega), Function.update_of_ne (by omega),
          Function.update_of_ne (by omega)]
      · simp only [Heap.setHeader, Heap.setNextFree, Heap.nextFree, Function.update_self]
        rfl
      · refine ⟨⟨hd, hpos⟩, ?_, by simp, ⟨by simp only; omega, by simp only; omega⟩, ?_, fun _ => ?_, trivial⟩
        · simp only [Heap.setHeader, Heap.setNextFree, headerWord, Bool.false_eq_true, if_false]
          rw [Function.update_of_ne (by omega), Function.update_self]
          omega
        · simp only [Heap.setHeader, Heap.setNextFree]
          rw [Function.update_of_ne (by omega), Function.update_of_ne (by omega), Function.update_of_ne (by omega),
            Function.update_self, Heap.header, hb.word, headerWord, headerWord]
          simp only [if_true]
          omega
        · simp only [Heap.setHeader, Heap.setNextFree]
          rw [Function.update_of_ne (by omega), Function.update_of_ne (by omega), Function.update_self, hbnext,
            BlockHeap.nextFree]
          simp only [span_cons, span_nil]
          congr 1
          omega
      · rfl
      · rfl
      · rfl
      · simp only [Heap.setHeader, Heap.setNextFree, freeLen_cons, freeLen_nil, Bool.false_eq_true, if_false, if_true]
        omega
    · intro p hp x h₁ h₂
      obtain rfl := List.mem_singleton.1 hp
      simp only at h₁ h₂
      simp only [Heap.setHeader, Heap.setNextFree]
      rw [Function.update_of_ne (by omega), Function.update_of_ne (by omega), Function.update_of_ne (by omega),
        Function.update_of_ne (by omega)]
  · simp only [Heap.setHeader, Heap.setNextFree, Heap.nextFree] at hprev ⊢
    rw [Function.update_of_ne (by omega), Function.update_of_ne (by omega), hprev]

/-- A new free block. -/
theorem splitIfNecessary_insert (h : Inv s (l ++ ⟨n, false⟩ :: r)) (hd : 4 ∣ size) (hpos : 0 < size)
    (hs : size + 8 ≤ n) (hr : ∀ b ∈ r.head?, b.free = false) (hpf : ∀ c ∈ pf, c = prevFree s l) :
    ∃ s', splitIfNecessary (blockAt s l) size pf s = .ok s' ∧
      Replaces s s' l [⟨n, false⟩] [⟨size, false⟩, ⟨n - size - 4, true⟩] r ∧ Keeps s s' [(blockAt s l, size)] := by
  have hlt := h.prevFree_lt
  have hfirst := h.first_lt
  have hend := h.end_eq
  have htop := h.top
  obtain ⟨⟨hn, hn0⟩, -⟩ := h.laid_behind
  simp only [span_cons] at hn hn0 hend
  have ha : Header s (blockAt s l) ⟨n, false⟩ := h.header
  have hnf := (nextFree_bounds (h := 4) (a := blockAt s l + 4 + n) (e := s.last_block) (l := r) (by omega)).1
  have hprev : s.nextFree (prevFree s l) = BlockHeap.nextFree 4 s.last_block (blockAt s l + 4 + n) r := h.nextFree_prev
  have hsize : alignUp size = size := alignUp_of_dvd hd (by omega)
  have hne : ¬ isFirstBlock s (blockAt s l) = true := by
    simp only [isFirstBlock, decide_eq_true_eq]
    omega
  have hword : orFree (s.header (blockAt s l)) = headerWord (blockAt s l + 4 + size) ⟨n - size - 4, true⟩ := by
    have := ha.addr
    rw [Heap.header, ha.word, headerWord, headerWord]
    simp only [Bool.false_eq_true, if_false, if_true]
    rw [orFree_of_dvd (by omega)]
    omega
  have hkeep : (s.setHeader (blockAt s l + 4 + size) (orFree (s.header (blockAt s l)))).nextFree (prevFree s l) =
      s.nextFree (prevFree s l) := by
    simp only [Heap.nextFree, Heap.setHeader]
    rw [Function.update_of_ne (by omega)]
  have hnew : Header ((s.setHeader (blockAt s l + 4 + size) (orFree (s.header (blockAt s l)))).setNextFree
      (blockAt s l + 4 + size) (s.nextFree (prevFree s l))) (blockAt s l + 4 + size) ⟨n - size - 4, true⟩ := by
    refine ⟨?_, ?_, ?_⟩
    · simp only [Heap.setHeader, Heap.setNextFree]
      rw [Function.update_of_ne (by omega), Function.update_self, hword]
    · have := ha.addr
      omega
    · simp only
      omega
  simp only [splitIfNecessary, ha.isFree, ha.blockDataSize, hsize]
  rw [ensure_of (by simp), ok_bind, ensure_of (by omega), ok_bind, ensure_of hne, ok_bind, ha.isLastBlock,
    ensure_of (by simp), ok_bind, ha.getNextBlock, ok_bind]
  simp only
  rw [if_neg (h.next_not_free hr), if_neg (by omega), prevFreeOr_eq h (fun _ _ => rfl) rfl rfl hpf, ok_bind, hkeep, hnew.blockDataSize,
    ensure_of ?_, ok_bind]
  · refine ⟨_, rfl, ?_, ?_⟩
    · apply Inv.replace (m := [⟨n, false⟩]) h
      · simp only [span_cons, span_nil]
        omega
      · intro x hx
        obtain ⟨h₁, h₂⟩ := hx
        simp only [span_cons, span_nil] at h₂
        simp only [Heap.setHeader, Heap.setNextFree]
        rw [Function.update_of_ne (by omega), Function.update_of_ne (by omega), Function.update_of_ne (by omega),
          Function.update_of_ne (by omega)]
      · simp only [Heap.setHeader, Heap.setNextFree, Heap.nextFree, Function.update_self]
        rfl
      · refine ⟨⟨hd, hpos⟩, ?_, by simp, ⟨by simp only; omega, by simp only; omega⟩, ?_, fun _ => ?_, trivial⟩
        · simp only [Heap.setHeader, Heap.setNextFree, headerWord, Bool.false_eq_true, if_false]
          rw [Function.update_of_ne (by omega), Function.update_self]
          omega
        · simp only [Heap.setHeader, Heap.setNextFree]
          rw [Function.update_of_ne (by omega), Function.update_of_ne (by omega), Function.update_of_ne (by omega),
            Function.update_self]
          exact hword
        · simp only [Heap.setHeader, Heap.setNextFree]
          rw [Function.update_of_ne (by omega), Function.update_of_ne (by omega), Function.update_self, hprev,
            BlockHeap.nextFree]
          simp only [span_cons, span_nil]
          congr 1
          omega
      · rfl
      · rfl
      · rfl
      · simp only [Heap.setHeader, Heap.setNextFree, freeLen_cons, freeLen_nil, Bool.false_eq_true, if_false, if_true]
        omega
    · intro p hp x h₁ h₂
      obtain rfl := List.mem_singleton.1 hp
      simp only at h₁ h₂
      simp only [Heap.setHeader, Heap.setNextFree]
      rw [Function.update_of_ne (by omega), Function.update_of_ne (by omega), Function.update_of_ne (by omega),
        Function.update_of_ne (by omega)]
  · simp only [Heap.setHeader, Heap.setNextFree, Heap.nextFree] at hprev ⊢
    rw [Function.update_of_ne (by omega), Function.update_of_ne (by omega), hprev]
    omega

/-- The block is not large enough for two. -/
theorem splitIfNecessary_small (h : Inv s (l ++ ⟨n, false⟩ :: r)) (hd : 4 ∣ size) (hs : size ≤ n)
    (hlt : n < size + 8) (hr : ∀ b ∈ r.head?, b.free = false) : splitIfNecessary (blockAt s l) size pf s = .ok s := by
  have hfirst := h.first_lt
  have hend := h.end_eq
  have htop := h.top
  simp only [span_cons] at hend
  have ha : Header s (blockAt s l) ⟨n, false⟩ := h.header
  have hsize : alignUp size = size := alignUp_of_dvd hd (by omega)
  have hne : ¬ isFirstBlock s (blockAt s l) = true := by
    simp only [isFirstBlock, decide_eq_true_eq]
    omega
  simp only [splitIfNecessary, ha.isFree, ha.blockDataSize, hsize]
  rw [ensure_of (by simp), ok_bind, ensure_of hs, ok_bind, ensure_of hne, ok_bind, ha.isLastBlock, ensure_of (by simp),
    ok_bind, ha.getNextBlock, ok_bind]
  simp only
  rw [if_neg (h.next_not_free hr), if_pos hlt]

theorem frame_of_replaces {a b : List Block} (h : Replaces s s' l a b r) (hk : Keeps s s' [(blockAt s l, size)]) :
    Frame s s' ((blockAt s l, size) :: (usedBlocks s l ++ used 4 (blockAt s l + span 4 a) r)) := by
  refine ⟨fun p hp => ?_, h.first, h.last, h.total⟩
  rcases List.mem_cons.1 hp with rfl | hp
  · exact hk _ List.mem_cons_self
  · exact h.keeps p hp

theorem splitIfNecessary_spec (h : Inv s (l ++ ⟨n, false⟩ :: r)) (hd : 4 ∣ size) (hpos : 0 < size) (hs : size ≤ n)
    (hpf : ∀ c ∈ pf, c = prevFree s l) : ∃ s', splitIfNecessary (blockAt s l) size pf s = .ok s' ∧
      Inv s' (l ++ trim size n r) ∧
      Frame s s' ((blockAt s l, size) :: (usedBlocks s l ++ used 4 (blockAt s l + 4 + n) r)) := by
  by_cases hr : ∀ b ∈ r.head?, b.free = false
  · rw [trim_of_used hr]
    by_cases hlt : n < size + 8
    · rw [if_pos hlt]
      exact ⟨s, splitIfNecessary_small h hd hs hlt hr, h, Frame.refl _ _⟩
    · rw [if_neg hlt]
      obtain ⟨s', heq, hrep, hk⟩ := splitIfNecessary_insert h hd hpos (by omega) hr hpf
      refine ⟨s', heq, hrep.inv, (frame_of_replaces hrep hk).subset fun p hp => ?_⟩
      simp only [span_cons, span_nil, Nat.add_zero, ← Nat.add_assoc]
      exact hp
  · obtain ⟨m, r, rfl⟩ := exists_free_of_head hr
    obtain ⟨s', heq, hrep, hk⟩ := splitIfNecessary_extend (m := m) (r := r) h hd hpos hs hpf
    refine ⟨s', heq, hrep.inv, (frame_of_replaces hrep hk).subset fun p hp => ?_⟩
    rw [used_cons_free rfl] at hp
    simp only [span_cons, span_nil, Nat.add_zero, ← Nat.add_assoc]
    exact hp

end Split

end MultiHeap
