import LittleBuddy.Utils.MultiHeap
/-!
# The blocks of a heap in its memory

`Laid` says which words a list of blocks has in the memory, and `Inv` that the
memory of a heap is that of a list of blocks. A call replaces some of the blocks
(`Inv.replace`): it writes where these were, and the link of the free block in
front of them. The other blocks keep their contents (`Replaces.keeps`).
-/
open BlockHeap

namespace MultiHeap

@[simp] theorem ensure_of {c : Prop} [Decidable c] (hc : c) : ensure c = .ok () := if_pos hc

@[simp] theorem ok_bind {α β : Type} (x : α) (f : α → M β) : ((Except.ok x : M α) >>= f) = f x := rfl

/-! ## Words -/

/-- The header of a block at `a`. -/
def headerWord (a : Nat) (b : Block) : Nat := a + 4 + b.len + if b.free then 1 else 0

theorem align_eq {x : Nat} (h : 4 ∣ x) : align x = x := Nat.div_mul_cancel h

theorem align_add_one {x : Nat} (h : 4 ∣ x) : align (x + 1) = x := by
  rw [align]
  omega

theorem align_headerWord {a : Nat} {b : Block} (ha : 4 ∣ a) (hb : 4 ∣ b.len) :
    align (headerWord a b) = a + 4 + b.len := by
  rw [headerWord]
  split
  · exact align_add_one (by omega)
  · exact align_eq (by omega)

theorem orFree_of_dvd {x : Nat} (h : 4 ∣ x) : orFree x = x + 1 := if_neg (by omega)

section Header
variable {s : Heap} {a : Nat} {b : Block}

/-- The word at `a` is the header of the block. -/
structure Header (s : Heap) (a : Nat) (b : Block) : Prop where
  word : s.mem a = headerWord a b
  addr : 4 ∣ a
  len : 4 ∣ b.len

namespace Header

theorem align_header (h : Header s a b) : align (s.header a) = a + 4 + b.len := by
  rw [Heap.header, h.word]
  exact align_headerWord h.addr h.len

theorem isFree (h : Header s a b) : isFree s a = b.free := by
  have ha := h.addr
  have hl := h.len
  rw [MultiHeap.isFree, Heap.header, h.word, headerWord]
  cases b.free with
  | false => simp only [Bool.false_eq_true, if_false, decide_eq_false_iff_not]; omega
  | true => simp only [if_true, decide_eq_true_eq]; omega

theorem next_ne_zero (h : Header s a b) : align (s.header a) ≠ 0 := by
  rw [h.align_header]
  omega

theorem getNextBlock (h : Header s a b) : getNextBlock s a = .ok (a + 4 + b.len) := by
  simp only [MultiHeap.getNextBlock, if_neg h.next_ne_zero]
  rw [ensure_of (by rw [h.align_header]; omega), ok_bind, h.align_header]

theorem blockDataSize (h : Header s a b) : blockDataSize s a = b.len := by
  simp only [MultiHeap.blockDataSize, h.align_header]
  rw [if_neg (by omega)]
  omega

theorem isLastBlock (h : Header s a b) : isLastBlock s a = false := decide_eq_false h.next_ne_zero

end Header
end Header

/-! ## Lists of blocks in the memory -/

/-- From `a` on the memory has the blocks of the list, and `ef` is the first free block behind them. -/
def Laid (mem : Nat → Nat) (ef : Nat) : Nat → List Block → Prop
  | _, [] => True
  | a, b :: l => (4 ∣ b.len ∧ 0 < b.len) ∧ mem a = headerWord a b ∧
      (b.free = true → mem (a + 4) = BlockHeap.nextFree 4 ef (a + 4 + b.len) l) ∧
      Laid mem ef (a + 4 + b.len) l

section Laid
variable {mem mem' : Nat → Nat} {ef ef' a c x : Nat} {b : Block} {l r P m m' : List Block}

theorem laid_append : Laid mem ef a (l ++ r) ↔
    Laid mem (BlockHeap.nextFree 4 ef (a + span 4 l) r) a l ∧
      Laid mem ef (a + span 4 l) r := by
  induction l generalizing a with
  | nil => simp [Laid]
  | cons b l ih =>
    rw [List.cons_append, Laid, Laid, ih, nextFree_append, span_cons, ← Nat.add_assoc, ← Nat.add_assoc]
    simp only [and_assoc]

theorem Laid.dvd (h : Laid mem ef a l) : 4 ∣ span 4 l := by
  induction l generalizing a with
  | nil => exact Nat.dvd_zero 4
  | cons b l ih =>
    have := ih h.2.2.2
    have := h.1.1
    rw [span_cons]
    omega

theorem Laid.length_le (h : Laid mem ef a l) : l.length ≤ span 4 l := by
  induction l generalizing a with
  | nil => exact Nat.le_refl _
  | cons b l ih =>
    have := ih h.2.2.2
    rw [span_cons, List.length_cons]
    omega

/-- Only the words of the blocks matter. -/
theorem Laid.congr (h : Laid mem ef a l) (hm : ∀ x, a ≤ x → x < a + span 4 l → mem' x = mem x) :
    Laid mem' ef a l := by
  induction l generalizing a with
  | nil => trivial
  | cons b l ih =>
    obtain ⟨hb, hw, hf, hl⟩ := h
    rw [span_cons] at hm
    refine ⟨hb, ?_, fun hfree => ?_, ih hl fun x h₁ h₂ => hm x (by omega) (by omega)⟩
    · rw [hm a (Nat.le_refl _) (by omega), hw]
    · rw [hm _ (by omega) (by omega), hf hfree]

theorem Laid.congr_end (h : Laid mem ef a l) (hl : ¬ HasFree l) (ef' : Nat) : Laid mem ef' a l := by
  induction l generalizing a with
  | nil => trivial
  | cons b l ih =>
    obtain ⟨hb, hw, -, hrest⟩ := h
    refine ⟨hb, hw, fun hfree => absurd ⟨b, List.mem_cons_self, hfree⟩ hl, ih hrest fun h => ?_⟩
    obtain ⟨d, hd, hf⟩ := h
    exact hl ⟨d, List.mem_cons_of_mem _ hd, hf⟩

theorem Laid.last_lt (h : Laid mem ef a l) (hl : HasFree l) :
    a ≤ lastFree 4 c a l ∧ lastFree 4 c a l + 8 ≤ a + span 4 l := by
  obtain ⟨hle, l₁, b, l₂, rfl, -, -, heq⟩ := lastFree_mem (h := 4) (a := a) (c := c) hl
  obtain ⟨⟨hd, hpos⟩, -⟩ := (laid_append.1 h).2
  rw [span_append, span_cons]
  omega

/-- The last free block is linked to the one behind the list. -/
theorem Laid.link_last (h : Laid mem ef a l) (hl : HasFree l) : mem (lastFree 4 c a l + 4) = ef := by
  obtain ⟨-, l₁, b, l₂, rfl, hb, hn, heq⟩ := lastFree_mem (h := 4) (a := a) (c := c) hl
  rw [heq, (laid_append.1 h).2.2.2.1 hb, nextFree_of_not hn]

/-- The link of the last free block is changed, to another block behind the list. -/
theorem Laid.relink (h : Laid mem ef a l) (hl : HasFree l)
    (hm : ∀ x, a ≤ x → x < a + span 4 l → x ≠ lastFree 4 c a l + 4 → mem' x = mem x)
    (hlink : mem' (lastFree 4 c a l + 4) = ef') : Laid mem' ef' a l := by
  induction l generalizing a c with
  | nil =>
    obtain ⟨b, hb, -⟩ := hl
    cases hb
  | cons b l ih =>
    obtain ⟨hb, hw, hf, hrest⟩ := h
    rw [lastFree] at hm hlink
    rw [span_cons] at hm
    by_cases hl' : HasFree l
    · obtain ⟨hge, -⟩ := hrest.last_lt (c := if b.free then a else c) hl'
      refine ⟨hb, ?_, fun hfree => ?_, ih hrest hl' (fun x h₁ h₂ h₃ => hm x (by omega) (by omega) h₃) hlink⟩
      · rw [hm a (by omega) (by omega) (by omega), hw]
      · rw [hm _ (by omega) (by omega) (by omega), hf hfree, nextFree_congr hl']
    · have hfree : b.free = true := by
        obtain ⟨d, hd, hd'⟩ := hl
        rcases List.mem_cons.1 hd with rfl | hd
        · exact hd'
        · exact absurd ⟨d, hd, hd'⟩ hl'
      rw [lastFree_of_not hl', if_pos hfree] at hm hlink
      refine ⟨hb, ?_, fun _ => ?_, (hrest.congr fun x h₁ h₂ => hm x (by omega) (by omega) (by omega)).congr_end hl' _⟩
      · rw [hm a (by omega) (by omega) (by omega), hw]
      · rw [hlink, nextFree_of_not hl']

/-- Blocks are replaced by others of the same span. -/
theorem Laid.replace (h : Laid mem ef a (P ++ (m ++ r))) (hP : HasFree P) (hs : span 4 m' = span 4 m)
    (hsame : ∀ x, x ≠ lastFree 4 0 a P + 4 → ¬ (a + span 4 P ≤ x ∧ x < a + span 4 P + span 4 m) → mem' x = mem x)
    (hlink : mem' (lastFree 4 0 a P + 4) =
      BlockHeap.nextFree 4 ef (a + span 4 P) (m' ++ r))
    (hmid : Laid mem' (BlockHeap.nextFree 4 ef (a + span 4 P + span 4 m) r)
      (a + span 4 P) m') : Laid mem' ef a (P ++ (m' ++ r)) := by
  obtain ⟨hpre, hrest⟩ := laid_append.1 h
  obtain ⟨-, hr⟩ := laid_append.1 hrest
  obtain ⟨-, hlast⟩ := hpre.last_lt (c := 0) hP
  refine laid_append.2 ⟨hpre.relink (c := 0) hP (fun x h₁ h₂ h₃ => hsame x h₃ (by omega)) hlink,
    laid_append.2 ⟨by rwa [hs], ?_⟩⟩
  rw [hs]
  exact hr.congr fun x h₁ h₂ => hsame x (by omega) (by omega)

end Laid

/-! ## The heap -/

/-- `first_block`, which is in front of the blocks and never used. -/
def firstBlock : Block := ⟨8, true⟩

/-- The memory of the heap is that of the blocks. -/
structure Inv (s : Heap) (l : List Block) : Prop where
  laid : Laid s.mem s.last_block s.first_block (firstBlock :: l)
  last : s.first_block + span 4 (firstBlock :: l) = s.last_block
  last_header : s.mem s.last_block = 1
  last_next : s.mem (s.last_block + 4) = 0
  aligned : 4 ∣ s.first_block
  pos : 0 < s.first_block
  top : s.last_block + 8 ≤ 2 ^ 32
  free : s.free_bytes = freeLen l

/-- The block behind those of the list, -/
def blockAt (s : Heap) (l : List Block) : Nat := s.first_block + span 4 (firstBlock :: l)

/-- and the last free one among them. -/
def prevFree (s : Heap) (l : List Block) : Nat := lastFree 4 0 s.first_block (firstBlock :: l)

theorem hasFree_first (l : List Block) : HasFree (firstBlock :: l) := ⟨firstBlock, List.mem_cons_self, rfl⟩

section Inv
variable {s s' : Heap} {l r m m' : List Block} {b : Block} {n k nf x : Nat}

theorem blockAt_nil (s : Heap) : blockAt s [] = s.first_block + 12 := rfl

theorem blockAt_append (s : Heap) (l r : List Block) : blockAt s (l ++ r) = blockAt s l + span 4 r := by
  rw [blockAt, blockAt, span_cons, span_cons, span_append]
  omega

theorem blockAt_concat (s : Heap) (l : List Block) (b : Block) : blockAt s (l ++ [b]) = blockAt s l + 4 + b.len := by
  rw [blockAt_append, span_cons, span_nil]
  omega

namespace Inv

theorem end_eq (h : Inv s (l ++ r)) : blockAt s l + span 4 r = s.last_block := by
  rw [← blockAt_append]
  exact h.last

theorem laid_front (h : Inv s (l ++ r)) :
    Laid s.mem (BlockHeap.nextFree 4 s.last_block (blockAt s l) r) s.first_block (firstBlock :: l) :=
  (laid_append.1 (show Laid s.mem s.last_block s.first_block ((firstBlock :: l) ++ r) from h.laid)).1

theorem laid_behind (h : Inv s (l ++ r)) : Laid s.mem s.last_block (blockAt s l) r :=
  (laid_append.1 (show Laid s.mem s.last_block s.first_block ((firstBlock :: l) ++ r) from h.laid)).2

theorem dvd_blockAt (h : Inv s (l ++ r)) : 4 ∣ blockAt s l := by
  have h₁ := h.laid_front.dvd
  have h₂ := h.aligned
  rw [blockAt]
  omega

theorem header (h : Inv s (l ++ b :: r)) : Header s (blockAt s l) b := by
  obtain ⟨⟨hd, -⟩, hw, -⟩ := h.laid_behind
  exact ⟨hw, h.dvd_blockAt, hd⟩

/-- The header behind a block. -/
theorem header_next {c : Block} (h : Inv s (l ++ b :: c :: r)) : Header s (blockAt s l + 4 + b.len) c := by
  have h' : Inv s ((l ++ [b]) ++ c :: r) := by rwa [List.append_assoc]
  rw [← blockAt_concat]
  exact h'.header

theorem header_first (h : Inv s l) : Header s s.first_block firstBlock := by
  obtain ⟨⟨hd, -⟩, hw, -⟩ := h.laid
  exact ⟨hw, h.aligned, hd⟩

theorem nextFree_first (h : Inv s l) : s.nextFree s.first_block = BlockHeap.nextFree 4 s.last_block (blockAt s []) l :=
  h.laid.2.2.1 rfl

theorem nextFree_eq (h : Inv s (l ++ ⟨n, true⟩ :: r)) :
    s.nextFree (blockAt s l) = BlockHeap.nextFree 4 s.last_block (blockAt s l + 4 + n) r :=
  h.laid_behind.2.2.1 rfl

/-- The link of a free block behind another block. -/
theorem nextFree_next (h : Inv s (l ++ b :: ⟨n, true⟩ :: r)) : s.nextFree (blockAt s l + 4 + b.len) =
    BlockHeap.nextFree 4 s.last_block (blockAt s l + 4 + b.len + 4 + n) r := by
  have h' : Inv s ((l ++ [b]) ++ ⟨n, true⟩ :: r) := by rwa [List.append_assoc]
  rw [← blockAt_concat]
  exact h'.nextFree_eq

theorem isFree_last (h : Inv s l) : isFree s s.last_block = true := by
  rw [isFree, Heap.header, h.last_header]
  rfl

theorem isLastBlock_last (h : Inv s l) : isLastBlock s s.last_block = true := by
  rw [isLastBlock, Heap.header, h.last_header]
  rfl

theorem len_pos (h : Inv s (l ++ b :: r)) : 0 < b.len := h.laid_behind.1.2

theorem lt_last (h : Inv s (l ++ b :: r)) : blockAt s l + 4 + b.len ≤ s.last_block := by
  have := h.end_eq
  rw [span_cons] at this
  omega

/-- A loop over all of the blocks, and over the two in front of and behind them, ends. -/
theorem length_add_two_le (h : Inv s l) : l.length + 2 ≤ s.last_block := by
  have hlen := (laid_behind (l := []) h).length_le
  have hlast := h.last
  have hpos := h.pos
  rw [span_cons, show firstBlock.len = 8 from rfl] at hlast
  omega

theorem first_lt (_ : Inv s (l ++ r)) : s.first_block + 12 ≤ blockAt s l := by
  rw [blockAt, span_cons, show firstBlock.len = 8 from rfl]
  omega

theorem prevFree_lt (h : Inv s (l ++ r)) : s.first_block ≤ prevFree s l ∧ prevFree s l + 8 ≤ blockAt s l :=
  h.laid_front.last_lt (hasFree_first l)

theorem nextFree_prev (h : Inv s (l ++ r)) :
    s.nextFree (prevFree s l) = BlockHeap.nextFree 4 s.last_block (blockAt s l) r :=
  h.laid_front.link_last (hasFree_first l)

end Inv

theorem Inv.header_prev (h : Inv s (l ++ r)) :
    ∃ k, Header s (prevFree s l) ⟨k, true⟩ ∧ prevFree s l + 4 + k ≤ blockAt s l := by
  obtain ⟨-, l₁, b, l₂, heq, hb, -, hat⟩ := lastFree_mem (h := 4) (a := s.first_block) (c := 0) (hasFree_first l)
  have hlaid := h.laid_front
  rw [heq] at hlaid
  obtain ⟨hfront, hbehind⟩ := laid_append.1 hlaid
  obtain ⟨⟨hd, -⟩, hw, -⟩ := hbehind
  have hdvd := hfront.dvd
  have ha := h.aligned
  obtain ⟨k, f⟩ := b
  obtain rfl : f = true := hb
  refine ⟨k, ⟨by rw [prevFree, hat]; exact hw, by rw [prevFree, hat]; omega, hd⟩, ?_⟩
  rw [prevFree, blockAt, hat, heq, span_append, span_cons]
  simp only
  omega

theorem prevFree_nil (s : Heap) : prevFree s [] = s.first_block := rfl

theorem prevFree_concat (s : Heap) (l : List Block) (b : Block) :
    prevFree s (l ++ [b]) = if b.free then blockAt s l else prevFree s l := by
  rw [prevFree, ← List.cons_append, lastFree_append]
  rfl

/-! ## The free block in front of another block -/

theorem prevFreeLoop_eq {fuel c a block : Nat} (h : Laid s.mem nf a l) (hblock : a + span 4 l = block) (hnf : block ≤ nf)
    (hfree : isFree s block = true → nf = block) (hc : 0 < c) (hca : c < a) (hcf : isFree s c = true)
    (hlink : s.nextFree c = BlockHeap.nextFree 4 nf a l) (hfuel : l.length < fuel) (ha : 4 ∣ a) :
    prevFreeLoop s block fuel c = .ok (lastFree 4 c a l) := by
  induction l generalizing a c fuel with
  | nil =>
    obtain ⟨fuel, rfl⟩ : ∃ k, fuel = k + 1 := ⟨fuel - 1, by omega⟩
    rw [span_nil, Nat.add_zero] at hblock
    have hlink' : s.nextFree c = nf := hlink
    rw [prevFreeLoop, if_pos ⟨by omega, by omega⟩, ensure_of hcf, ok_bind,
      if_pos (.inr (by omega))]
    split
    · next hb => rw [ensure_of (by rw [hlink', hfree hb]), ok_bind, lastFree]
    · rfl
  | cons b l ih =>
    obtain ⟨⟨hd, hpos⟩, hw, hnext, hrest⟩ := h
    rw [span_cons] at hblock
    rw [BlockHeap.nextFree] at hlink
    rw [lastFree]
    by_cases hb : b.free = true
    · rw [if_pos hb] at hlink ⊢
      obtain ⟨fuel, rfl⟩ : ∃ k, fuel = k + 1 := ⟨fuel - 1, by omega⟩
      rw [prevFreeLoop, if_pos ⟨by omega, by omega⟩, ensure_of hcf, ok_bind, if_neg (by omega), hlink]
      refine ih hrest (by omega) (by omega) (by omega) ?_ (hnext hb) (by simpa using hfuel) (by omega)
      rw [(Header.mk hw ha hd).isFree, hb]
    · rw [if_neg hb] at hlink ⊢
      exact ih hrest (by omega) hc (by omega) hcf hlink (by simp only [List.length_cons] at hfuel; omega) (by omega)

/-- `get_prev_free_block`, in a heap whose blocks before the given one are as they should be. -/
theorem getPrevFreeBlock_eq (h : Laid s.mem nf s.first_block (firstBlock :: l)) (hpos : 0 < s.first_block)
    (ha : 4 ∣ s.first_block) (hlast : blockAt s l ≤ s.last_block) (hnf : blockAt s l ≤ nf)
    (hfree : isFree s (blockAt s l) = true → nf = blockAt s l) :
    getPrevFreeBlock s (blockAt s l) = .ok (prevFree s l) := by
  have hlen := h.length_le
  have hw : Header s s.first_block firstBlock := ⟨h.2.1, ha, h.1.1⟩
  have hne : ¬ isFirstBlock s (blockAt s l) = true := by
    rw [isFirstBlock, blockAt, span_cons]
    simp only [decide_eq_true_eq]
    omega
  rw [getPrevFreeBlock, ensure_of hne, ok_bind]
  rw [blockAt] at hlast
  simp only [List.length_cons] at hlen
  refine prevFreeLoop_eq h.2.2.2 ?_ hnf hfree hpos (by omega) (by rw [hw.isFree]; rfl) (h.2.2.1 rfl) (by omega) ?_
  · rw [blockAt, span_cons]
    omega
  · rw [show firstBlock.len = 8 from rfl]
    omega

theorem Inv.getPrevFreeBlock (h : Inv s (l ++ b :: r)) :
    MultiHeap.getPrevFreeBlock s (blockAt s l) = .ok (prevFree s l) := by
  have hlt := h.lt_last
  refine getPrevFreeBlock_eq h.laid_front h.pos h.aligned (by omega) ?_ fun hf => ?_
  · exact (nextFree_bounds (Nat.le_of_eq h.end_eq)).1
  · rw [h.header.isFree] at hf
    rw [BlockHeap.nextFree, if_pos hf]

/-! ## Blocks that are replaced -/

/-- The words other than those of `n` addresses of blocks behind `l`, and than the link to them. -/
def Outside (s : Heap) (l : List Block) (n x : Nat) : Prop :=
  x ≠ prevFree s l + 4 ∧ ¬ (blockAt s l ≤ x ∧ x < blockAt s l + n)

/-- From `s` to `s'` the blocks `m` behind `l` are replaced by `m'`. -/
structure Replaces (s s' : Heap) (l m m' r : List Block) : Prop where
  inv : Inv s' (l ++ (m' ++ r))
  same : ∀ x, Outside s l (span 4 m) x → s'.mem x = s.mem x
  first : s'.first_block = s.first_block
  last : s'.last_block = s.last_block
  total : s'.total_bytes = s.total_bytes

theorem Inv.replace (h : Inv s (l ++ (m ++ r))) (hs : span 4 m' = span 4 m)
    (hsame : ∀ x, Outside s l (span 4 m) x → s'.mem x = s.mem x)
    (hlink : s'.nextFree (prevFree s l) = BlockHeap.nextFree 4 s.last_block (blockAt s l) (m' ++ r))
    (hmid : Laid s'.mem (BlockHeap.nextFree 4 s.last_block (blockAt s l + span 4 m) r) (blockAt s l) m')
    (hfirst : s'.first_block = s.first_block) (hlast : s'.last_block = s.last_block)
    (htotal : s'.total_bytes = s.total_bytes) (hfree : s'.free_bytes + freeLen m = s.free_bytes + freeLen m') :
    Replaces s s' l m m' r := by
  have hend := h.end_eq
  have hprev := h.prevFree_lt
  rw [span_append] at hend
  have hout : ∀ x, s.last_block ≤ x → s'.mem x = s.mem x := by
    intro x hx
    exact hsame x ⟨by omega, by omega⟩
  refine ⟨⟨?_, ?_, ?_, ?_, hfirst ▸ h.aligned, hfirst ▸ h.pos, hlast ▸ h.top, ?_⟩, hsame, hfirst, hlast, htotal⟩
  · rw [hfirst, hlast]
    exact Laid.replace (P := firstBlock :: l) h.laid (hasFree_first l) hs (fun x h₁ h₂ => hsame x ⟨h₁, h₂⟩) hlink hmid
  · have := h.last
    simp only [span_cons, span_append, hs] at this ⊢
    rw [hfirst, hlast]
    exact this
  · rw [hlast, hout _ (Nat.le_refl _), h.last_header]
  · rw [hlast, hout _ (by omega), h.last_next]
  · have := h.free
    simp only [freeLen_append] at this ⊢
    omega

/-- Two replacements of the same blocks. -/
theorem Replaces.trans {s₁ : Heap} {m₁ : List Block} (h : Replaces s s₁ l m m₁ r) (h' : Replaces s₁ s' l m₁ m' r)
    (hs : span 4 m₁ = span 4 m) : Replaces s s' l m m' r where
  inv := h'.inv
  same x hx := by
    rw [h'.same x (by rw [Outside, prevFree, blockAt, h.first, hs]; exact hx), h.same x hx]
  first := h'.first.trans h.first
  last := h'.last.trans h.last
  total := h'.total.trans h.total

theorem Replaces.blockAt (h : Replaces s s' l m m' r) (k : List Block) : blockAt s' k = blockAt s k := by
  rw [MultiHeap.blockAt, MultiHeap.blockAt, h.first]

theorem Replaces.prevFree (h : Replaces s s' l m m' r) (k : List Block) : prevFree s' k = prevFree s k := by
  rw [MultiHeap.prevFree, MultiHeap.prevFree, h.first]

/-- The contents of some blocks are the same. -/
def Keeps (s s' : Heap) (blocks : List (Nat × Nat)) : Prop :=
  ∀ p ∈ blocks, ∀ x, p.1 + 4 ≤ x → x < p.1 + 4 + p.2 → s'.mem x = s.mem x

theorem Keeps.refl (s : Heap) (blocks : List (Nat × Nat)) : Keeps s s blocks := fun _ _ _ _ _ => rfl

theorem Keeps.trans {s₁ : Heap} {blocks : List (Nat × Nat)} (h : Keeps s s₁ blocks) (h' : Keeps s₁ s' blocks) :
    Keeps s s' blocks := fun p hp x h₁ h₂ => (h' p hp x h₁ h₂).trans (h p hp x h₁ h₂)

theorem Keeps.subset {blocks blocks' : List (Nat × Nat)} (h : Keeps s s' blocks) (hs : ∀ p ∈ blocks', p ∈ blocks) :
    Keeps s s' blocks' := fun p hp => h p (hs p hp)

/-- The blocks in use, from the first one on. -/
def usedBlocks (s : Heap) (l : List Block) : List (Nat × Nat) := used 4 (MultiHeap.blockAt s []) l

theorem usedBlocks_append (s : Heap) (l r : List Block) :
    usedBlocks s (l ++ r) = usedBlocks s l ++ used 4 (MultiHeap.blockAt s l) r := by
  rw [usedBlocks, used_append, usedBlocks, ← blockAt_append, List.nil_append]

/-- The other blocks in use keep their contents. -/
theorem Replaces.keeps (h : Replaces s s' l m m' r) :
    Keeps s s' (usedBlocks s l ++ used 4 (MultiHeap.blockAt s l + span 4 m) r) := by
  intro p hp x h₁ h₂
  have hlast := h.inv.prevFree_lt.2
  rw [h.prevFree, h.blockAt] at hlast
  rcases List.mem_append.1 hp with hp | hp
  · have hbefore : p.1 + 4 + p.2 ≤ MultiHeap.prevFree s l ∨ MultiHeap.prevFree s l + 4 ≤ p.1 :=
      used_lastFree (c := 0) (hasFree_first l) (show p ∈ used 4 s.first_block (firstBlock :: l) from hp)
    have hend := (used_bounds hp).2
    rw [← blockAt_append, List.nil_append] at hend
    exact h.same x ⟨by omega, by omega⟩
  · have hstart := (used_bounds hp).1
    exact h.same x ⟨by omega, by omega⟩

end Inv

end MultiHeap
