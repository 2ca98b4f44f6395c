import LittleBuddy.Utils.MultiHeapOps
/-!
# What the calls of the heap do

`multi_heap_malloc` takes the best of the free blocks, `multi_heap_free` gives a block
back and `multi_heap_realloc` has all three cases of its comment: in place, into
the neighbours, and elsewhere. Free blocks that are neighbours are merged by each of
them (`Coalesced`).
-/
open BlockHeap

namespace MultiHeap

variable {s s' : Heap} {l l₁ l₂ r : List Block} {n m size p : Nat}

/-! ## The best block -/

/-- No free block is large enough. -/
def NoFit (size : Nat) (l : List Block) : Prop := ∀ b ∈ l, b.free = true → b.len < size

/-- The free block behind `l₁` is the first one of the smallest that are large enough. -/
structure BestFit (size : Nat) (l l₁ : List Block) (n : Nat) (l₂ : List Block) : Prop where
  eq : l = l₁ ++ ⟨n, true⟩ :: l₂
  fits : size ≤ n
  before : ∀ b ∈ l₁, b.free = true → size ≤ b.len → n < b.len
  behind : ∀ b ∈ l₂, b.free = true → size ≤ b.len → n ≤ b.len

/-- What the loop of `multi_heap_malloc` has found in the blocks. -/
def Found (s : Heap) (size : Nat) (l : List Block) (best : Best) : Prop :=
  best = ⟨0, 2 ^ 32 - 1, 0⟩ ∧ NoFit size l ∨
    ∃ l₁ n l₂, BestFit size l l₁ n l₂ ∧ best = ⟨blockAt s l₁, n, prevFree s l₁⟩

section Found
variable {best : Best} {b : Block}

theorem BestFit.le (h : BestFit size l l₁ n l₂) (hb : b ∈ l) (hf : b.free = true) (hs : size ≤ b.len) : n ≤ b.len := by
  rw [h.eq] at hb
  rcases List.mem_append.1 hb with hb | hb
  · exact Nat.le_of_lt (h.before b hb hf hs)
  · rcases List.mem_cons.1 hb with rfl | hb
    · exact Nat.le_refl _
    · exact h.behind b hb hf hs

theorem Found.skip (h : Found s size l best) (hb : b.free = true → b.len < size ∨ best.size ≤ b.len)
    (hlt : b.len < 2 ^ 32 - 1) : Found s size (l ++ [b]) best := by
  rcases h with ⟨rfl, hno⟩ | ⟨l₁, n, l₂, hfit, rfl⟩
  · refine .inl ⟨rfl, fun c hc hf => ?_⟩
    rcases List.mem_append.1 hc with hc | hc
    · exact hno c hc hf
    · obtain rfl := List.mem_singleton.1 hc
      exact (hb hf).resolve_right fun hle => Nat.not_lt.2 hle hlt
  · refine .inr ⟨l₁, n, l₂ ++ [b], ⟨by simp [hfit.eq], hfit.fits, hfit.before, fun c hc hf hs => ?_⟩, rfl⟩
    rcases List.mem_append.1 hc with hc | hc
    · exact hfit.behind c hc hf hs
    · obtain rfl := List.mem_singleton.1 hc
      exact (hb hf).resolve_left (Nat.not_lt.2 hs)

/-- A smaller block is found. -/
theorem Found.better (h : Found s size l best) (hs : size ≤ n) (hlt : n < best.size)
    (hr : ∀ b ∈ r, b.free = true → size ≤ b.len → n ≤ b.len) :
    Found s size (l ++ ⟨n, true⟩ :: r) ⟨blockAt s l, n, prevFree s l⟩ := by
  refine .inr ⟨l, n, r, ⟨rfl, hs, fun c hc hf hc' => ?_, hr⟩, rfl⟩
  rcases h with ⟨-, hno⟩ | ⟨l₁, k, l₂, hfit, rfl⟩
  · exact absurd hc' (Nat.not_le.2 (hno c hc hf))
  · exact Nat.lt_of_lt_of_le hlt (hfit.le hc hf hc')

theorem BestFit.unique {k : Nat} {r₁ r₂ : List Block} (h : BestFit size l l₁ n l₂) (h' : BestFit size l r₁ k r₂) :
    l₁ = r₁ ∧ n = k := by
  have hmem : (⟨n, true⟩ : Block) ∈ l := by
    rw [h.eq]
    simp
  have hmem' : (⟨k, true⟩ : Block) ∈ l := by
    rw [h'.eq]
    simp
  obtain rfl : n = k := Nat.le_antisymm (h.le hmem' rfl h'.fits) (h'.le hmem rfl h.fits)
  refine ⟨?_, rfl⟩
  have heq := h.eq.symm.trans h'.eq
  rcases List.append_eq_append_iff.1 heq with ⟨a, ha, hb⟩ | ⟨a, ha, hb⟩
  · cases a with
    | nil => simpa using ha.symm
    | cons c a =>
      obtain rfl := (List.cons.inj hb).1
      exact absurd (h'.before ⟨n, true⟩ (by rw [ha]; simp) rfl h.fits) (Nat.lt_irrefl n)
  · cases a with
    | nil => simpa using ha
    | cons c a =>
      obtain rfl := (List.cons.inj hb).1
      exact absurd (h.before ⟨n, true⟩ (by rw [ha]; simp) rfl h.fits) (Nat.lt_irrefl n)

theorem Found.best_eq (h : Found s size l best) (hfit : BestFit size l l₁ n l₂) :
    best = ⟨blockAt s l₁, n, prevFree s l₁⟩ := by
  rcases h with ⟨-, hno⟩ | ⟨r₁, k, r₂, hfit', rfl⟩
  · exact absurd (hno ⟨n, true⟩ (by rw [hfit.eq]; simp) rfl) (Nat.not_lt.2 hfit.fits)
  · obtain ⟨rfl, rfl⟩ := hfit.unique hfit'
    rfl

end Found

/-- The end of the list of free blocks, and what comes behind it. -/
theorem searchLoop_last {fuel prev : Nat} {best : Best} (h : Inv s l) (hprev : prev < s.last_block) (hs : 0 < size) :
    searchLoop s size (fuel + 2) prev s.last_block best = .ok best := by
  have hzero : blockDataSize s s.last_block = 0 := by
    simp only [blockDataSize]
    rw [if_pos (of_decide_eq_true h.isLastBlock_last)]
  have hnext : s.nextFree s.last_block = 0 := h.last_next
  have hne : s.last_block ≠ 0 := by omega
  rw [searchLoop, if_neg hne, ensure_of hprev, ok_bind, ensure_of h.isFree_last, ok_bind]
  simp only
  rw [hzero, if_neg (by omega), hnext, searchLoop, if_pos rfl]

theorem searchLoop_spec {fuel : Nat} {best : Best} (h : Inv s (l ++ r)) (hfound : Found s size l best) (hs : 0 < size)
    (hfuel : r.length + 2 ≤ fuel) :
    ∃ best', searchLoop s size fuel (prevFree s l) (BlockHeap.nextFree 4 s.last_block (blockAt s l) r) best =
      .ok best' ∧ Found s size (l ++ r) best' := by
  induction r generalizing l best fuel with
  | nil =>
    obtain ⟨fuel, rfl⟩ : ∃ k, fuel = k + 2 := ⟨fuel - 2, by simp only [List.length_nil] at hfuel; omega⟩
    have hlt := h.prevFree_lt.2
    have hend := h.end_eq
    rw [span_nil] at hend
    rw [List.append_nil] at h ⊢
    exact ⟨best, searchLoop_last h (by omega) hs, hfound⟩
  | cons b r ih =>
    have hlen := h.lt_last
    have htop := h.top
    have hprev := h.prevFree_lt
    have h' : Inv s ((l ++ [b]) ++ r) := by rwa [List.append_assoc]
    rw [show l ++ b :: r = (l ++ [b]) ++ r by simp]
    rcases b with ⟨n, _ | _⟩
    · -- blocks in use are not on the list
      have hrest : r.length + 2 ≤ fuel := Nat.le_trans (by simp) hfuel
      have := ih h' (hfound.skip (fun hf => absurd hf (by simp)) (by simp only at hlen ⊢; omega)) hrest
      rwa [prevFree_concat, blockAt_concat] at this
    · obtain ⟨fuel, rfl⟩ : ∃ k, fuel = k + 1 := ⟨fuel - 1, by omega⟩
      have hrest : r.length + 2 ≤ fuel := Nat.le_of_succ_le_succ (by simpa only [List.length_cons] using hfuel)
      simp only at hlen
      have hh : Header s (blockAt s l) ⟨n, true⟩ := h.header
      rw [nextFree_free, searchLoop, if_neg (by omega), ensure_of (by omega), ok_bind, ensure_of hh.isFree, ok_bind]
      simp only [hh.blockDataSize, h.nextFree_eq]
      split
      · next hlt =>
        split
        · next heq =>
          refine ⟨_, rfl, ?_⟩
          rw [List.append_assoc]
          exact hfound.better hlt.1 hlt.2 fun c _ _ hc => by omega
        · have := ih h' (hfound.better (r := []) hlt.1 hlt.2 (by simp)) hrest
          rwa [prevFree_concat, blockAt_concat] at this
      · next hlt =>
        have := ih h' (hfound.skip (fun _ => by simp only; omega) (by simp only; omega)) hrest
        rwa [prevFree_concat, blockAt_concat] at this

theorem search_spec (h : Inv s l) (hs : 0 < size) : ∃ best,
    searchLoop s size s.last_block s.first_block (s.nextFree s.first_block) ⟨0, 2 ^ 32 - 1, 0⟩ = .ok best ∧
      Found s size l best := by
  rw [h.nextFree_first, ← prevFree_nil s]
  exact searchLoop_spec (l := []) h (.inl ⟨rfl, by simp [NoFit]⟩) hs h.length_add_two_le

/-! ## `multi_heap_malloc` -/

theorem noteMinimum_inv (h : Inv s l) : Inv (noteMinimum s) l := by
  rw [noteMinimum]
  split
  · exact ⟨h.laid, h.last, h.last_header, h.last_next, h.aligned, h.pos, h.top, h.free⟩
  · exact h

theorem noteMinimum_frame (s : Heap) (blocks : List (Nat × Nat)) : Frame s (noteMinimum s) blocks := by
  rw [noteMinimum]
  split
  · exact ⟨fun _ _ _ _ _ => rfl, rfl, rfl, rfl⟩
  · exact Frame.refl s blocks

theorem dvd_alignUp (size : Nat) : 4 ∣ alignUp size := Nat.dvd_mul_left 4 _

theorem alignUp_le (size : Nat) : alignUp size + 3 < 2 ^ 32 := by
  rw [alignUp, align]
  omega

theorem alignUp_alignUp (size : Nat) : alignUp (alignUp size) = alignUp size :=
  alignUp_of_dvd (dvd_alignUp size) (alignUp_le size)

/-- A free block is taken off the list. -/
theorem Inv.take (h : Inv s (l ++ ⟨n, true⟩ :: r)) :
    Replaces s (takeBlock (blockAt s l) (prevFree s l) s) l [⟨n, true⟩] [⟨n, false⟩] r := by
  have hlt := h.prevFree_lt
  have hh : Header s (blockAt s l) ⟨n, true⟩ := h.header
  have haddr := hh.addr
  have hlen := hh.len
  have hle : n ≤ s.free_bytes := by
    rw [h.free, freeLen_append, freeLen_cons, if_pos rfl]
    simp only
    omega
  simp only [takeBlock]
  generalize hs₁ : s.setNextFree (prevFree s l) (s.nextFree (blockAt s l)) = s₁
  generalize hs₂ : s₁.setHeader (blockAt s l) (andNotFree (s₁.header (blockAt s l))) = s₂
  have hword : s₂.mem (blockAt s l) = headerWord (blockAt s l) ⟨n, false⟩ := by
    simp only [← hs₂, ← hs₁, Heap.setHeader, Heap.setNextFree, Function.update_self, Heap.header]
    rw [Function.update_of_ne (by omega), hh.word, headerWord, headerWord, andNotFree]
    simp only [if_true, Bool.false_eq_true, if_false]
    simp only at hlen
    omega
  have hh₂ : Header s₂ (blockAt s l) ⟨n, false⟩ := ⟨hword, haddr, hlen⟩
  rw [hh₂.blockDataSize]
  apply Inv.replace h (show span 4 [⟨n, false⟩] = span 4 [⟨n, true⟩] from rfl)
  · intro x hx
    obtain ⟨h₁, h₂⟩ := hx
    simp only [span_cons, span_nil] at h₂
    simp only [← hs₂, ← hs₁, Heap.setHeader, Heap.setNextFree]
    rw [Function.update_of_ne (by omega), Function.update_of_ne (by omega)]
  · simp only [← hs₂, ← hs₁, Heap.setHeader, Heap.setNextFree, Heap.nextFree] at h ⊢
    rw [Function.update_of_ne (by omega), Function.update_self]
    exact h.nextFree_eq
  · exact ⟨⟨hlen, h.len_pos⟩, hword, by simp, trivial⟩
  · rw [← hs₂, ← hs₁]
    rfl
  · rw [← hs₂, ← hs₁]
    rfl
  · rw [← hs₂, ← hs₁]
    rfl
  · simp only [← hs₂, ← hs₁, Heap.setHeader, Heap.setNextFree, freeLen_cons, freeLen_nil, if_true, Bool.false_eq_true,
      if_false]
    omega

/-- There is a block that is large enough. -/
theorem multiHeapMalloc_fit (h : Inv s l) (hpos : 0 < alignUp size) (hfree : alignUp size ≤ s.free_bytes)
    (hfit : BestFit (alignUp size) l l₁ n l₂) :
    ∃ s', multiHeapMalloc size s = .ok (blockAt s l₁ + 4, s') ∧
      Inv s' (l₁ ++ trim (alignUp size) n l₂) ∧ Frame s s' (usedBlocks s l) := by
  obtain ⟨best, hsearch, hfound⟩ := search_spec h hpos
  have hbest : best = ⟨blockAt s l₁, n, prevFree s l₁⟩ := hfound.best_eq hfit
  obtain rfl := hfit.eq
  have hfirst := h.first_lt
  have htake := h.take
  have hprev : ∀ c ∈ some (prevFree s l₁), c = prevFree (takeBlock (blockAt s l₁) (prevFree s l₁) s) l₁ := by
    intro c hc
    cases hc
    exact (htake.prevFree l₁).symm
  obtain ⟨s', hsplit, hinv, hframe⟩ := splitIfNecessary_spec htake.inv (dvd_alignUp size) hpos hfit.fits hprev
  rw [htake.blockAt] at hsplit hframe
  refine ⟨noteMinimum s', ?_, noteMinimum_inv hinv, ?_⟩
  · simp only [multiHeapMalloc]
    rw [if_neg (by omega), if_neg (by omega), hsearch, ok_bind, hbest]
    simp only
    rw [if_neg (by omega), hsplit, ok_bind]
  · refine Frame.trans ?_ (noteMinimum_frame s' _)
    rw [usedBlocks_append, used_cons_free rfl]
    refine (htake.frame.subset fun p hp => ?_).trans (hframe.subset fun p hp => ?_)
    · simpa only [span_cons, span_nil, Nat.add_zero, ← Nat.add_assoc] using hp
    · rw [show usedBlocks _ l₁ = usedBlocks s l₁ from htake.frame.usedBlocks l₁]
      exact List.mem_cons_of_mem _ hp

/-- The blocks in use then. -/
theorem perm_malloc (hc : Coalesced l) (hfit : BestFit size l l₁ n l₂) (hf : Frame s s' (usedBlocks s l)) :
    ∃ n', size ≤ n' ∧ Coalesced (l₁ ++ trim size n l₂) ∧
      (usedBlocks s' (l₁ ++ trim size n l₂)).Perm ((blockAt s l₁, n') :: usedBlocks s l) := by
  obtain ⟨n', hle, hused⟩ := used_trim hfit.fits (blockAt s' l₁) l₂
  obtain rfl := hfit.eq
  refine ⟨n', hle, coalesced_trim hc.left hc.right.2, ?_⟩
  rw [usedBlocks_append, hused, usedBlocks_append, used_cons_free rfl, hf.usedBlocks, hf.blockAt]
  exact List.perm_middle

theorem multiHeapMalloc_noFit (h : Inv s l) (hpos : 0 < alignUp size) (hfree : alignUp size ≤ s.free_bytes)
    (hno : NoFit (alignUp size) l) : multiHeapMalloc size s = .ok (0, s) := by
  obtain ⟨best, hsearch, ⟨rfl, -⟩ | ⟨l₁, n, l₂, hfit, -⟩⟩ := search_spec h hpos
  · simp only [multiHeapMalloc]
    rw [if_neg (by omega), if_neg (by omega), hsearch, ok_bind]
    rfl
  · exact absurd (hno ⟨n, true⟩ (by rw [hfit.eq]; simp) rfl) (Nat.not_lt.2 hfit.fits)

theorem multiHeapMalloc_zero (hs : alignUp size = 0) : multiHeapMalloc size s = .ok (0, s) := if_pos hs

theorem multiHeapMalloc_shortage (hpos : 0 < alignUp size) (hlt : s.free_bytes < alignUp size) :
    multiHeapMalloc size s = .error .shortage := by
  simp only [multiHeapMalloc]
  rw [if_neg (by omega), if_pos hlt]

/-! ## `multi_heap_free` -/

/-- What is in front of a block: the free block before it is its neighbour, or not. -/
inductive Front (s : Heap) (l : List Block) : Prop where
  | first (hl : l = []) (hnext : getNextBlock s s.first_block = .ok (blockAt s l))
      (hsize : blockDataSize s s.first_block = 8)
  | free (l₁ : List Block) (k : Nat) (hl : l = l₁ ++ [⟨k, true⟩])
      (hnext : getNextBlock s (blockAt s l₁) = .ok (blockAt s l)) (hsize : blockDataSize s (blockAt s l₁) = k)
  | used (x : Nat) (hl : ∀ b ∈ l.getLast?, b.free = false) (hnext : getNextBlock s (prevFree s l) = .ok x)
      (hx : x ≠ blockAt s l)

theorem Inv.front (h : Inv s (l ++ r)) : Front s l := by
  rcases List.eq_nil_or_concat l with rfl | ⟨l₁, ⟨k, f⟩, rfl⟩
  · have hh : Header s s.first_block firstBlock := Inv.header_first (l := [] ++ r) h
    exact .first rfl hh.getNextBlock hh.blockDataSize
  · rw [List.concat_eq_append] at h ⊢
    rw [List.append_assoc] at h
    cases f with
    | true =>
      have hh : Header s (blockAt s l₁) ⟨k, true⟩ := h.header
      refine .free l₁ k rfl ?_ hh.blockDataSize
      rw [hh.getNextBlock, blockAt_concat]
    | false =>
      obtain ⟨j, hh, hle⟩ := h.header_prev
      refine .used (prevFree s l₁ + 4 + j) (by simp) ?_ ?_
      · rw [prevFree_concat, if_neg (by simp)]
        exact hh.getNextBlock
      · rw [blockAt_concat]
        simp only
        omega

/-- `multi_heap_free`, up to its merges. -/
theorem Inv.put (h : Inv s (l ++ ⟨n, false⟩ :: r)) :
    Replaces s (putBlock (blockAt s l) (prevFree s l) s) l [⟨n, false⟩] [⟨n, true⟩] r := by
  have hlt := h.prevFree_lt
  have hh : Header s (blockAt s l) ⟨n, false⟩ := h.header
  have haddr := hh.addr
  have hlen := hh.len
  have hpos := h.len_pos
  have hprev := h.nextFree_prev
  simp only at hlen hpos
  simp only [putBlock]
  generalize hs₁ : s.setNextFree (blockAt s l) (s.nextFree (prevFree s l)) = s₁
  generalize hs₂ : s₁.setNextFree (prevFree s l) (blockAt s l) = s₂
  generalize hs₃ : s₂.setHeader (blockAt s l) (orFree (s₂.header (blockAt s l))) = s₃
  have hword : s₃.mem (blockAt s l) = headerWord (blockAt s l) ⟨n, true⟩ := by
    simp only [← hs₃, ← hs₂, ← hs₁, Heap.setHeader, Heap.setNextFree, Function.update_self, Heap.header]
    rw [Function.update_of_ne (by omega), Function.update_of_ne (by omega), hh.word, headerWord, headerWord]
    simp only [if_true, Bool.false_eq_true, if_false]
    rw [orFree_of_dvd (by omega)]
  have hh₃ : Header s₃ (blockAt s l) ⟨n, true⟩ := ⟨hword, haddr, hlen⟩
  rw [hh₃.blockDataSize]
  apply Inv.replace h (show span 4 [⟨n, true⟩] = span 4 [⟨n, false⟩] from rfl)
  · intro x hx
    obtain ⟨h₁, h₂⟩ := hx
    simp only [span_cons, span_nil] at h₂
    simp only [← hs₃, ← hs₂, ← hs₁, Heap.setHeader, Heap.setNextFree]
    rw [Function.update_of_ne (by omega), Function.update_of_ne (by omega), Function.update_of_ne (by omega)]
  · simp only [← hs₃, ← hs₂, ← hs₁, Heap.setHeader, Heap.setNextFree, Heap.nextFree]
    rw [Function.update_of_ne (by omega), Function.update_self]
    rfl
  · refine ⟨⟨hlen, hpos⟩, hword, fun _ => ?_, trivial⟩
    simp only [← hs₃, ← hs₂, ← hs₁, Heap.setHeader, Heap.setNextFree]
    rw [Function.update_of_ne (by omega), Function.update_of_ne (by omega), Function.update_self, hprev,
      nextFree_used]
    simp only [span_cons, span_nil, Nat.add_zero, ← Nat.add_assoc]
    rfl
  · rw [← hs₃, ← hs₂, ← hs₁]
    rfl
  · rw [← hs₃, ← hs₂, ← hs₁]
    rfl
  · rw [← hs₃, ← hs₂, ← hs₁]
    rfl
  · simp only [← hs₃, ← hs₂, ← hs₁, Heap.setHeader, Heap.setNextFree, freeLen_cons, freeLen_nil, if_true, Bool.false_eq_true,
      if_false]
    omega

/-- A free block is merged into the free block in front of it. -/
theorem mergePrev_spec (h : Inv s (l ++ ⟨n, true⟩ :: r)) (hl : Coalesced l) : ∃ l' n' s',
    mergePrev (prevFree s l) (blockAt s l) s = .ok (blockAt s l', s') ∧ Inv s' (l' ++ ⟨n', true⟩ :: r) ∧ Coalesced l' ∧ (∀ b ∈ l'.getLast?, b.free = false) ∧
      usedBlocks s l' = usedBlocks s l ∧ blockAt s l' + 4 + n' = blockAt s l + 4 + n ∧
      Frame s s' (usedBlocks s (l ++ ⟨n, true⟩ :: r)) := by
  have hh : Header s (blockAt s l) ⟨n, true⟩ := h.header
  have hlt := h.prevFree_lt
  rcases h.front with ⟨rfl, hnext, -⟩ | ⟨l₁, k, rfl, hnext, -⟩ | ⟨x, hu, hnext, hx⟩
  · -- `first_block` is not merged
    refine ⟨[], n, s, ?_, h, trivial, by simp, rfl, rfl, Frame.refl _ _⟩
    rw [prevFree_nil] at hlt ⊢
    rw [mergePrev, hnext, ok_bind, if_pos rfl, mergeAdjacent, ensure_of (by omega), ok_bind,
      if_neg (by rw [hh.isLastBlock]; simp), if_pos (by simp [isFirstBlock])]
  · have h' : Inv s (l₁ ++ ([⟨k, true⟩, ⟨n, true⟩] ++ r)) := by rwa [List.append_assoc] at h
    obtain ⟨s', heq, hinv, hframe⟩ := mergeAdjacent_spec h' (.inl rfl)
    obtain ⟨hl₁, -, hlast⟩ := coalesced_append.1 hl
    refine ⟨l₁, k + 4 + n, s', ?_, hinv, hl₁, fun b hb => ?_, ?_, ?_, ?_⟩
    · rw [mergePrev, prevFree_concat, if_pos rfl, hnext, ok_bind, if_pos rfl, blockAt_concat]
      exact heq
    · by_contra hf
      exact absurd (hlast b hb (by simpa using hf) _ rfl) (by simp)
    · rw [usedBlocks_append, used_cons_free rfl, used_nil, List.append_nil]
    · rw [blockAt_concat]
      simp only
      omega
    · rw [List.append_assoc]
      exact hframe
  · refine ⟨l, n, s, ?_, h, hl, hu, rfl, rfl, Frame.refl _ _⟩
    rw [mergePrev, hnext, ok_bind, if_neg hx]

/-- The free block behind a free block is merged into it. -/
theorem mergeNext_spec (h : Inv s (l ++ ⟨n, true⟩ :: r)) (hr : Coalesced r) : ∃ n' r' s' b,
    mergeNext (blockAt s l) (blockAt s l + 4 + n) s = .ok (b, s') ∧ Inv s' (l ++ ⟨n', true⟩ :: r') ∧ Coalesced (⟨n', true⟩ :: r') ∧
      used 4 (blockAt s l + 4 + n') r' = used 4 (blockAt s l + 4 + n) r ∧
      Frame s s' (usedBlocks s (l ++ ⟨n, true⟩ :: r)) := by
  have hend := h.end_eq
  rw [span_cons] at hend
  rcases r with _ | ⟨⟨m, _ | _⟩, r⟩
  · rw [span_nil] at hend
    refine ⟨n, [], s, blockAt s l, ?_, h, ⟨by simp, trivial⟩, rfl, Frame.refl _ _⟩
    simp only at hend
    rw [mergeNext, show blockAt s l + 4 + n = s.last_block by omega, if_pos h.isFree_last, mergeAdjacent, ensure_of (by omega),
      ok_bind, if_pos h.isLastBlock_last]
  · refine ⟨n, ⟨m, false⟩ :: r, s, blockAt s l, ?_, h, ⟨by simp, hr⟩, rfl, Frame.refl _ _⟩
    have hm : Header s (blockAt s l + 4 + n) ⟨m, false⟩ := h.header_next
    rw [mergeNext, if_neg (by rw [hm.isFree]; simp)]
  · have hm : Header s (blockAt s l + 4 + n) ⟨m, true⟩ := h.header_next
    obtain ⟨s', heq, hinv, hframe⟩ := mergeAdjacent_spec (l := l) (n := n) (m := m) (r := r) h (.inl rfl)
    refine ⟨n + 4 + m, r, s', blockAt s l, ?_, hinv, ⟨fun _ => hr.1 rfl, hr.2⟩, ?_, hframe⟩
    · rw [mergeNext, if_pos hm.isFree]
      exact heq
    · rw [used_cons_free rfl]
      simp only [← Nat.add_assoc]

theorem Inv.assertValid (h : Inv s (l ++ ⟨n, false⟩ :: r)) : assertValidBlock s (blockAt s l) = .ok () := by
  have hh : Header s (blockAt s l) ⟨n, false⟩ := h.header
  have hlt := h.lt_last
  have hfirst := h.first_lt
  simp only at hlt
  rw [assertValidBlock, ensure_of (by omega), ok_bind, hh.getNextBlock, ok_bind]
  simp only
  rw [ensure_of (by omega), ok_bind, hh.isFree, if_neg (by simp)]

theorem multiHeapFree_spec (h : Inv s (l ++ ⟨n, false⟩ :: r)) (hc : Coalesced (l ++ ⟨n, false⟩ :: r)) :
    ∃ s' l', multiHeapFree (blockAt s l + 4) s = .ok s' ∧ Inv s' l' ∧ Coalesced l' ∧
      usedBlocks s' l' = usedBlocks s l ++ used 4 (blockAt s l + 4 + n) r ∧ Frame s s' (usedBlocks s' l') := by
  have hh : Header s (blockAt s l) ⟨n, false⟩ := h.header
  have hfirst := h.first_lt
  have hlt := h.prevFree_lt
  have hend := h.end_eq
  rw [span_cons] at hend
  have hnf := (nextFree_bounds (h := 4) (a := blockAt s l + 4 + n) (e := s.last_block) (l := r) (by
    simp only at hend; omega)).1
  obtain ⟨hcl, hcr, -⟩ := coalesced_append.1 hc
  have hput := h.put
  obtain ⟨l', n', s₁, hprev, hinv₁, hcl', hlast, hused, hat, hframe₁⟩ := mergePrev_spec (r := r) hput.inv hcl
  obtain ⟨n'', r', s', b, hnext, hinv', hcr', hused', hframe'⟩ := mergeNext_spec hinv₁ hcr.2
  have hframe₀ := hput.frame
  simp only [span_cons, span_nil, Nat.add_zero, ← Nat.add_assoc] at hframe₀
  rw [usedBlocks_append, used_cons_free rfl, hput.blockAt, hframe₀.usedBlocks] at hframe₁
  have hat₁ : blockAt s₁ l' + 4 + n' = blockAt s l + 4 + n := by
    rw [hframe₁.blockAt, hat, hput.blockAt]
  rw [usedBlocks_append, used_cons_free rfl, hat₁, hframe₁.usedBlocks, hused, hframe₀.usedBlocks] at hframe'
  have hframe := (hframe₀.trans hframe₁).trans hframe'
  have hall : usedBlocks s' (l' ++ ⟨n'', true⟩ :: r') = usedBlocks s l ++ used 4 (blockAt s l + 4 + n) r := by
    rw [usedBlocks_append, used_cons_free rfl, hframe'.blockAt, hused', hat₁, hframe'.usedBlocks, hframe₁.usedBlocks,
      hused, hframe₀.usedBlocks]
  refine ⟨s', l' ++ ⟨n'', true⟩ :: r', ?_, hinv', ?_, hall, hall ▸ hframe⟩
  · rw [hput.prevFree, hput.blockAt, hframe₁.blockAt l' |>.symm] at hprev
    rw [hat₁] at hnext
    have hlink : s.nextFree (prevFree s l) = 0 ∨ s.nextFree (prevFree s l) > blockAt s l := by
      rw [h.nextFree_prev, nextFree_used]
      omega
    simp only [multiHeapFree, getBlock, Nat.add_sub_cancel]
    rw [if_neg (by omega), h.assertValid, ok_bind, hh.isFree, ensure_of (by simp), ok_bind, hh.isLastBlock,
      ensure_of (by simp), ok_bind, ensure_of (by simp only [isFirstBlock, decide_eq_true_eq]; omega), ok_bind,
      hh.getNextBlock, ok_bind, h.getPrevFreeBlock, ok_bind, ensure_of hlink, ok_bind, hprev, ok_bind]
    simp only
    rw [hnext, ok_bind]
  · exact coalesced_append.2 ⟨hcl', hcr', fun b hb hf => absurd hf (by rw [hlast b hb]; simp)⟩

/-! ## `multi_heap_realloc` -/

/-- `prev_grow_size`, which counts `first_block` too. -/
def prevGrow (l : List Block) : Nat :=
  match l.getLast? with
  | none => 8
  | some b => if b.free then b.len else 0

/-- A block in use in front does not count. -/
theorem Inv.prevGrow_used {x : Nat} (h : Inv s (l ++ r)) (hu : ∀ b ∈ l.getLast?, b.free = false)
    (hnext : getNextBlock s (prevFree s l) = .ok x) (hx : x ≠ blockAt s l) : prevGrow l = 0 := by
  rw [prevGrow]
  cases hl : l.getLast? with
  | none =>
    -- that would be `first_block`, which is a neighbour
    obtain rfl := List.getLast?_eq_none_iff.1 hl
    rw [prevFree_nil, (Inv.header_first (l := [] ++ r) h).getNextBlock] at hnext
    exact absurd (Except.ok.inj hnext).symm hx
  | some b => simp [hu b hl]

theorem Inv.prevGrow_eq (h : Inv s (l ++ r)) : ∃ behind, getNextBlock s (prevFree s l) = .ok behind ∧
    (if behind = blockAt s l then blockDataSize s (prevFree s l) else 0) = prevGrow l := by
  rcases h.front with ⟨rfl, hnext, hsize⟩ | ⟨l₁, k, rfl, hnext, hsize⟩ | ⟨x, hu, hnext, hx⟩
  · refine ⟨_, hnext, ?_⟩
    rw [if_pos rfl, prevFree_nil, hsize]
    rfl
  · rw [prevFree_concat, if_pos rfl]
    refine ⟨_, hnext, ?_⟩
    rw [if_pos rfl, hsize, prevGrow, List.getLast?_concat]
    rfl
  · refine ⟨_, hnext, ?_⟩
    rw [if_neg hx, h.prevGrow_used hu hnext hx]

/-- The block may grow into the one behind it. -/
theorem growNext_spec (h : Inv s (l ++ ⟨n, false⟩ :: r)) (hr : Coalesced r) (g size : Nat) : ∃ n₁ r₁ s₁,
    growNext (blockAt s l) (blockAt s l + 4 + n) g size s = .ok (blockAt s l, s₁) ∧
      Inv s₁ (l ++ ⟨n₁, false⟩ :: r₁) ∧ Coalesced r₁ ∧ n ≤ n₁ ∧
      used 4 (blockAt s l + 4 + n₁) r₁ = used 4 (blockAt s l + 4 + n) r ∧
      Frame s s₁ (usedBlocks s (l ++ ⟨n, false⟩ :: r)) := by
  rw [growNext]
  split
  · next hif =>
    have hend := h.end_eq
    rw [span_cons] at hend
    rcases r with _ | ⟨⟨m, _ | _⟩, r⟩
    · rw [span_nil] at hend
      refine ⟨n, [], s, ?_, h, trivial, Nat.le_refl _, rfl, Frame.refl _ _⟩
      simp only at hend
      rw [show blockAt s l + 4 + n = s.last_block by omega, mergeAdjacent, ensure_of (by omega), ok_bind,
        if_pos h.isLastBlock_last]
    · have hm : Header s (blockAt s l + 4 + n) ⟨m, false⟩ := h.header_next
      rw [hm.isFree] at hif
      exact absurd hif.1 (by simp)
    · obtain ⟨s₁, heq, hinv, hframe⟩ := mergeAdjacent_spec (l := l) (n := n) (m := m) (r := r) h (.inr rfl)
      refine ⟨n + 4 + m, r, s₁, heq, hinv, hr.2, by omega, ?_, hframe⟩
      rw [used_cons_free rfl]
      simp only [← Nat.add_assoc]
  · exact ⟨n, r, s, rfl, h, hr, Nat.le_refl _, rfl, Frame.refl _ _⟩

/-- It may grow into the one in front of it, where it is large enough then. -/
theorem growPrev_spec (h : Inv s (l ++ ⟨n, false⟩ :: r)) (hl : Coalesced l) (size : Nat) : ∃ l' n' s',
    growPrev (prevFree s l) (blockAt s l) (prevGrow l) size s = .ok (blockAt s l', s') ∧
      Inv s' (l' ++ ⟨n', false⟩ :: r) ∧ Coalesced l' ∧ usedBlocks s l' = usedBlocks s l ∧ n ≤ n' ∧
      blockAt s l' + 4 + n' = blockAt s l + 4 + n ∧ (l' = l ∨ size ≤ n') ∧
      Frame s s' (usedBlocks s (l ++ ⟨n, false⟩ :: r)) := by
  rw [growPrev]
  split
  · next hif =>
    have hh : Header s (blockAt s l) ⟨n, false⟩ := h.header
    have hlt := h.prevFree_lt
    rcases h.front with ⟨rfl, hnext, -⟩ | ⟨l₁, k, rfl, hnext, -⟩ | ⟨x, hu, hnext, hx⟩
    · refine ⟨[], n, s, ?_, h, trivial, rfl, Nat.le_refl _, rfl, .inl rfl, Frame.refl _ _⟩
      rw [prevFree_nil] at hlt ⊢
      rw [mergeAdjacent, ensure_of (by omega), ok_bind, if_neg (by rw [hh.isLastBlock]; simp),
        if_pos (by simp [isFirstBlock])]
    · have h' : Inv s (l₁ ++ ([⟨k, true⟩, ⟨n, false⟩] ++ r)) := by rwa [List.append_assoc] at h
      obtain ⟨s', heq, hinv, hframe⟩ := mergeAdjacent_spec h' (.inl rfl)
      have hsize : n + k ≥ size := by
        have := hif.2
        rwa [hh.blockDataSize, prevGrow, List.getLast?_concat] at this
      refine ⟨l₁, k + 4 + n, s', ?_, hinv, hl.left, ?_, by omega, ?_, .inr (by omega), ?_⟩
      · rw [prevFree_concat, if_pos rfl, blockAt_concat]
        exact heq
      · rw [usedBlocks_append, used_cons_free rfl, used_nil, List.append_nil]
      · rw [blockAt_concat]
        simp only
        omega
      · rw [List.append_assoc]
        exact hframe
    · rw [h.prevGrow_used hu hnext hx] at hif
      exact absurd hif.1 (Nat.lt_irrefl 0)
  · exact ⟨l, n, s, rfl, h, hl, rfl, Nat.le_refl _, rfl, .inl rfl, Frame.refl _ _⟩

/-- What is left of a block that has grown, as far as it went. -/
theorem growInPlace_spec (h : Inv s (l ++ ⟨n, false⟩ :: r)) (hc : Coalesced (l ++ ⟨n, false⟩ :: r)) (size : Nat) :
    ∃ l' n' r' s', growInPlace (blockAt s l) size s = .ok (blockAt s l', s') ∧
      Inv s' (l' ++ ⟨n', false⟩ :: r') ∧ Coalesced l' ∧ Coalesced r' ∧ n ≤ n' ∧ (l' = l ∨ size ≤ n') ∧
      usedBlocks s l' = usedBlocks s l ∧
      used 4 (blockAt s l' + 4 + n') r' = used 4 (blockAt s l + 4 + n) r ∧
      Frame s s' (usedBlocks s (l ++ ⟨n, false⟩ :: r)) := by
  have hh : Header s (blockAt s l) ⟨n, false⟩ := h.header
  obtain ⟨behind, hbehind, hgrow⟩ := h.prevGrow_eq
  obtain ⟨hcl, hcr, -⟩ := coalesced_append.1 hc
  obtain ⟨n₁, r₁, s₁, heq₁, hinv₁, hcr₁, hle₁, hused₁, hframe₁⟩ := growNext_spec h hcr.2 (prevGrow l) size
  obtain ⟨l', n', s', heq', hinv', hcl', hused', hle', hat', hsize', hframe'⟩ := growPrev_spec hinv₁ hcl size
  have hpv : prevFree s₁ l = prevFree s l := by rw [prevFree, prevFree, hframe₁.first]
  rw [hframe₁.blockAt, hframe₁.blockAt] at hat'
  refine ⟨l', n', r₁, s', ?_, hinv', hcl', hcr₁, by omega, hsize', ?_, ?_, hframe₁.trans ?_⟩
  · rw [growInPlace, hh.getNextBlock, ok_bind, h.getPrevFreeBlock, ok_bind, hbehind, ok_bind]
    simp only [hgrow]
    rw [heq₁, ok_bind]
    simp only
    rw [← hframe₁.blockAt l, ← hframe₁.blockAt l', ← hpv]
    exact heq'
  · rw [← hframe₁.usedBlocks l', hused', hframe₁.usedBlocks]
  · rw [hat', hused₁]
  · rw [usedBlocks_append, used_cons_used rfl, hframe₁.blockAt, hused₁, hframe₁.usedBlocks] at hframe'
    refine ⟨fun p hp x h₁ h₂ => ?_, hframe'.first, hframe'.last, hframe'.total⟩
    rw [usedBlocks_append, used_cons_used rfl] at hp
    rcases List.mem_append.1 hp with hp | hp
    · exact hframe'.keeps p (List.mem_append_left _ hp) x h₁ h₂
    · rcases List.mem_cons.1 hp with rfl | hp
      · exact hframe'.keeps (blockAt s l, n₁) (by simp) x h₁ (by simp only at h₂ ⊢; omega)
      · exact hframe'.keeps p (List.mem_append_right _ (List.mem_cons_of_mem _ hp)) x h₁ h₂

/-- How `multi_heap_realloc` of a block ends, if no assertion stops it: `rest` are the other blocks in use. -/
inductive Resized (s : Heap) (p n size : Nat) (rest : List (Nat × Nat)) : Nat → Heap → Prop
  /-- The block is where it was, and may have grown. -/
  | failed {s' : Heap} {L : List Block} {n' : Nat} (inv : Inv s' L) (coalesced : Coalesced L) (le : n ≤ n')
      (used : (usedBlocks s' L).Perm ((p, n') :: rest)) (frame : Frame s s' ((p, n) :: rest)) :
      Resized s p n size rest 0 s'
  | moved {s' : Heap} {L : List Block} {p' n' : Nat} (inv : Inv s' L) (coalesced : Coalesced L) (le : size ≤ n')
      (used : (usedBlocks s' L).Perm ((p', n') :: rest)) (frame : Frame s s' rest)
      (copied : ∀ x, x < n → x < size → s'.mem (p' + 4 + x) = s.mem (p + 4 + x)) :
      Resized s p n size rest (p' + 4) s'

/-- The other blocks in use. -/
def others (s : Heap) (l : List Block) (n : Nat) (r : List Block) : List (Nat × Nat) :=
  usedBlocks s l ++ used 4 (blockAt s l + 4 + n) r

theorem perm_others (s : Heap) (l : List Block) (n : Nat) (r : List Block) :
    (usedBlocks s (l ++ ⟨n, false⟩ :: r)).Perm ((blockAt s l, n) :: others s l n r) := by
  rw [usedBlocks_append, used_cons_used rfl]
  exact List.perm_middle

theorem Resized.noteMinimum {rest : List (Nat × Nat)} {q : Nat} (h : Resized s p n size rest q s') :
    Resized s p n size rest q (noteMinimum s') := by
  have hmem : ∀ x, (MultiHeap.noteMinimum s').mem x = s'.mem x := by
    intro x
    rw [MultiHeap.noteMinimum]
    split <;> rfl
  rcases h with ⟨hinv, hc, hle, hu, hf⟩ | ⟨hinv, hc, hle, hu, hf, hcopy⟩
  · refine .failed (noteMinimum_inv hinv) hc hle ?_ (hf.trans (noteMinimum_frame s' _))
    rwa [(noteMinimum_frame s' []).usedBlocks]
  · refine .moved (noteMinimum_inv hinv) hc hle ?_ (hf.trans (noteMinimum_frame s' _)) fun x h₁ h₂ => ?_
    · rwa [(noteMinimum_frame s' []).usedBlocks]
    · rw [hmem, hcopy x h₁ h₂]

theorem Resized.of_frame {s₁ : Heap} {rest : List (Nat × Nat)} {q : Nat} (h : Resized s₁ p m size rest q s')
    (hf : Frame s s₁ ((p, n) :: rest)) (hle : n ≤ m) : Resized s p n size rest q s' := by
  rcases h with ⟨hinv, hc, hle', hu, hframe⟩ | ⟨hinv, hc, hle', hu, hframe, hcopy⟩
  · exact .failed hinv hc (by omega) hu (hf.trans (hframe.shrink hle))
  · refine .moved hinv hc hle' hu ((hf.subset fun p hp => List.mem_cons_of_mem _ hp).trans hframe) fun x h₁ h₂ => ?_
    rw [hcopy x (by omega) h₂]
    exact hf.keeps _ List.mem_cons_self _ (by simp only; omega) (by simp only; omega)

/-- A block in use is split, and may have been moved before. -/
theorem resized_split {s₁ s₂ : Heap} {rest : List (Nat × Nat)} {q : Nat} (hinv : Inv s₂ (l ++ ⟨m, false⟩ :: r))
    (hcl : Coalesced l) (hcr : Coalesced r) (hd : 4 ∣ size) (hpos : 0 < size) (hs : size ≤ m)
    (hrest : others s₂ l m r = rest) (hframe : Frame s₁ s₂ rest)
    (hcopy : ∀ x, x < n → s₂.mem (blockAt s₂ l + 4 + x) = s₁.mem (q + 4 + x)) :
    ∃ s', splitIfNecessary (blockAt s₂ l) size none s₂ = .ok s' ∧
      Resized s₁ q n size rest (blockAt s₂ l + 4) s' := by
  have hprev : ∀ c ∈ (none : Option Nat), c = prevFree s₂ l := by simp
  obtain ⟨s', heq, hinv', hframe'⟩ := splitIfNecessary_spec hinv hd hpos hs hprev
  obtain ⟨n', hle, hused⟩ := used_trim hs (blockAt s₂ l) r
  refine ⟨s', heq, .moved hinv' (coalesced_trim hcl hcr) hle ?_ (hframe.trans ?_) fun x h₁ h₂ => ?_⟩
  · rw [usedBlocks_append, hframe'.usedBlocks, hframe'.blockAt, hused, ← hrest]
    exact List.perm_middle
  · rw [← hrest]
    exact hframe'.subset fun p hp => List.mem_cons_of_mem _ hp
  · rw [hframe'.keeps _ List.mem_cons_self _ (by simp only; omega) (by simp only; omega), hcopy x h₁]

/-- Data is copied into a block in use. -/
theorem Inv.memmove (h : Inv s (l ++ ⟨m, false⟩ :: r)) (q : Nat) (hn : n ≤ m) :
    Replaces s (s.memmove (blockAt s l + 4) (q + 4) n) l [⟨m, false⟩] [⟨m, false⟩] r := by
  refine h.store (fun x hx => ?_) rfl rfl rfl rfl
  rw [Heap.memmove]
  exact if_neg (by omega)

theorem memmove_mem (s : Heap) (a q : Nat) {x : Nat} (hx : x < n) : (s.memmove (a + 4) (q + 4) n).mem (a + 4 + x) =
    s.mem (q + 4 + x) := by
  simp only [Heap.memmove]
  rw [if_pos (by omega), Nat.add_sub_cancel_left]

theorem Replaces.frame_others {s : Heap} {f : Bool} (h : Replaces s s' l [⟨m, false⟩] [⟨m, f⟩] r) :
    Frame s s' (others s l m r) := by
  have := h.frame
  simpa only [others, span_cons, span_nil, Nat.add_zero, ← Nat.add_assoc] using this

theorem exists_of_mem_used {q : Nat × Nat} (hq : q ∈ usedBlocks s l) :
    ∃ l₁ r₁, l = l₁ ++ ⟨q.2, false⟩ :: r₁ ∧ q.1 = blockAt s l₁ := by
  obtain ⟨l₁, r₁, rfl, heq⟩ := mem_used.1 hq
  refine ⟨l₁, r₁, rfl, ?_⟩
  rw [heq, ← blockAt_append, List.nil_append]

/-- The data is moved to a new block, and the old one is given back. -/
theorem resized_elsewhere {L : List Block} {q n' : Nat} {rest : List (Nat × Nat)} (h : Inv s L) (hc : Coalesced L)
    (hused : (usedBlocks s L).Perm ((p, n') :: (q, n) :: rest)) (hle : size ≤ n') (hn : n ≤ n') :
    ∃ s', multiHeapFree (q + 4) (s.memmove (p + 4) (q + 4) n) = .ok s' ∧
      Resized s q n size rest (p + 4) s' := by
  -- the new block gets the data
  obtain ⟨l, r, rfl, hp⟩ := exists_of_mem_used (hused.mem_iff.2 (List.mem_cons_self (a := (p, n'))))
  simp only at h hc hused hp ⊢
  subst hp
  have hmove := h.memmove q hn
  have hother : (others s l n' r).Perm ((q, n) :: rest) :=
    List.Perm.cons_inv ((perm_others s l n' r).symm.trans hused)
  have hframe₁ := hmove.frame_others
  have hcopy : ∀ x, x < n → (s.memmove (blockAt s l + 4) (q + 4) n).mem (blockAt s l + 4 + x) = s.mem (q + 4 + x) :=
    fun x hx => memmove_mem s (blockAt s l) q hx
  have hinv₁ : Inv (s.memmove (blockAt s l + 4) (q + 4) n) (l ++ ⟨n', false⟩ :: r) := hmove.inv
  generalize s.memmove (blockAt s l + 4) (q + 4) n = s₁ at *
  -- and the old one is free then
  have hmem : (q, n) ∈ usedBlocks s₁ (l ++ ⟨n', false⟩ :: r) := by
    rw [hframe₁.usedBlocks]
    exact hused.mem_iff.2 (List.mem_cons_of_mem _ List.mem_cons_self)
  obtain ⟨l₂, r₂, heq, hq⟩ := exists_of_mem_used hmem
  simp only at heq hq
  rw [heq] at hinv₁ hc
  obtain ⟨s', L', hfree, hinv', hcoal', hused', hframe'⟩ := multiHeapFree_spec hinv₁ hc
  have hrest : (usedBlocks s' L').Perm ((blockAt s l, n') :: rest) := by
    rw [hused']
    have h₁ := perm_others s₁ l₂ n r₂
    rw [← heq, hframe₁.usedBlocks, ← hq] at h₁
    exact List.Perm.cons_inv ((h₁.symm.trans hused).trans (List.Perm.swap _ _ _))
  subst hq
  refine ⟨s', hfree, .moved hinv' hcoal' hle hrest ?_ fun x h₁ h₂ => ?_⟩
  · refine (hframe₁.subset fun p hp => ?_).trans (hframe'.subset fun p hp => ?_)
    · exact hother.mem_iff.2 (List.mem_cons_of_mem _ hp)
    · exact hrest.mem_iff.2 (List.mem_cons_of_mem _ hp)
  · rw [hframe'.keeps (blockAt s l, n') (hrest.mem_iff.2 List.mem_cons_self) _ (by simp only; omega)
      (by simp only; omega), hcopy x h₁]

theorem multiHeapRealloc_spec (h : Inv s (l ++ ⟨n, false⟩ :: r)) (hc : Coalesced (l ++ ⟨n, false⟩ :: r))
    (hpos : 0 < alignUp size) : multiHeapRealloc (blockAt s l + 4) size s = .error .shortage ∨
      ∃ q s', multiHeapRealloc (blockAt s l + 4) size s = .ok (q, s') ∧
        Resized s (blockAt s l) n (alignUp size) (others s l n r) q s' := by
  have hh : Header s (blockAt s l) ⟨n, false⟩ := h.header
  have hd := dvd_alignUp size
  have hll := alignUp_alignUp size
  obtain ⟨hcl, hcr, -⟩ := coalesced_append.1 hc
  simp only [multiHeapRealloc, getBlock, Nat.add_sub_cancel]
  generalize alignUp size = k at hpos hd hll ⊢
  rw [if_neg (by omega), h.assertValid, ok_bind, hh.isFree, ensure_of (by simp), ok_bind, if_neg (by omega),
    hh.blockDataSize]
  simp only
  by_cases hle : k ≤ n
  · obtain ⟨s', heq, hres⟩ := resized_split h hcl hcr.2 hd hpos hle rfl (Frame.refl s _) fun _ (_ : _ < n) => rfl
    rw [if_pos hle, heq, ok_bind]
    exact .inr ⟨_, _, rfl, hres.noteMinimum⟩
  rw [if_neg hle]
  by_cases hfew : s.free_bytes < k - n
  · rw [if_pos hfew]
    exact .inr ⟨_, _, rfl, .failed h hc (Nat.le_refl n) (perm_others s l n r) (Frame.refl s _)⟩
  rw [if_neg hfew]
  obtain ⟨l', m, r', s₁, hgrow, hinv₁, hcl', hcr', hnm, hsize, hused, hused', hframe₁⟩ :=
    growInPlace_spec h hc k
  have hh₁ : Header s₁ (blockAt s₁ l') ⟨m, false⟩ := hinv₁.header
  have hat := hframe₁.blockAt l'
  have hothers : others s₁ l' m r' = others s l n r := by
    rw [others, hframe₁.usedBlocks, hused, hframe₁.blockAt, hused', others]
  have hframe₀ : Frame s s₁ ((blockAt s l, n) :: others s l n r) :=
    hframe₁.subset fun p hp => (perm_others s l n r).mem_iff.2 hp
  rw [hgrow, ok_bind]
  simp only
  rw [← hat, hh₁.blockDataSize]
  simp only
  by_cases hge : m ≥ k
  · -- the neighbours were enough
    have hmove := hinv₁.memmove (blockAt s l) hnm
    have hcopy : ∀ x, x < n → (s₁.memmove (blockAt s₁ l' + 4) (blockAt s l + 4) n).mem (blockAt s₁ l' + 4 + x) =
        s.mem (blockAt s l + 4 + x) := by
      intro x hx
      rw [memmove_mem s₁ _ _ hx]
      exact hframe₀.keeps (blockAt s l, n) List.mem_cons_self _ (by simp only; omega) (by simp only; omega)
    rw [if_pos hge]
    have hat₂ := hmove.blockAt l'
    obtain ⟨s', heq, hres⟩ := resized_split (r := r') (q := blockAt s l) (n := n) hmove.inv hcl' hcr' hd hpos hge
      (by rw [others, hmove.frame_others.usedBlocks, hat₂, ← others, hothers])
      ((hframe₀.subset fun p hp => List.mem_cons_of_mem _ hp).trans (hothers ▸ hmove.frame_others))
      (by rw [hat₂]; exact hcopy)
    rw [hat₂] at heq hres
    rw [heq, ok_bind]
    exact .inr ⟨_, _, rfl, hres.noteMinimum⟩
  · -- or the data goes elsewhere
    obtain rfl : l' = l := hsize.resolve_right hge
    rw [if_neg hge]
    have hc₁ : Coalesced (l' ++ ⟨m, false⟩ :: r') := hcl'.middle hcr' rfl
    have hperm := perm_others s₁ l' m r'
    rw [hothers, hframe₁.blockAt] at hperm
    by_cases hshort : s₁.free_bytes < k
    · rw [multiHeapMalloc_shortage (by omega) (by omega)]
      exact .inl rfl
    obtain ⟨best, -, ⟨-, hno⟩ | ⟨a, j, b, hfit, -⟩⟩ := search_spec hinv₁ hpos
    · rw [multiHeapMalloc_noFit hinv₁ (by omega) (by omega) (by rwa [hll]), ok_bind]
      exact .inr ⟨_, _, rfl, (Resized.failed hinv₁ hc₁ hnm hperm hframe₀).noteMinimum⟩
    · rw [← hll] at hfit
      obtain ⟨s₂, hmalloc, hinv₂, hframe₂⟩ := multiHeapMalloc_fit hinv₁ (by omega) (by omega) hfit
      rw [hll] at hfit hinv₂
      obtain ⟨n', hn', hca, hpa⟩ := perm_malloc hc₁ hfit hframe₂
      have hperm₂ := hpa.trans (hperm.cons (blockAt s₁ a, n'))
      rw [hmalloc, ok_bind]
      simp only
      have hh₂ : blockDataSize s₂ (blockAt s₁ l') = m := by
        obtain ⟨u, v, heq, hu⟩ := exists_of_mem_used (hperm₂.mem_iff.2
          (List.mem_cons_of_mem _ (List.mem_cons_self (a := (blockAt s l', m)))))
        simp only at heq hu
        rw [heq] at hinv₂
        rw [hframe₁.blockAt, hu]
        exact hinv₂.header.blockDataSize
      obtain ⟨s', hfree, hres⟩ := resized_elsewhere hinv₂ hca hperm₂ hn' (by omega)
      rw [if_neg (by omega), hh₂, hat, hfree, ok_bind]
      have hframe : Frame s s₂ ((blockAt s l', n) :: others s l' n r) :=
        hframe₀.trans ((hframe₂.subset fun p hp => hperm.mem_iff.2 hp).shrink hnm)
      exact .inr ⟨_, _, rfl, (hres.of_frame hframe hnm).noteMinimum⟩

end MultiHeap
