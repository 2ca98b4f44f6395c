import LittleBuddy.Utils.MultiHeapBlocks
import Mathlib.Algebra.GroupWithZero.Nat
/-!
# `multi_heap_check` and `multi_heap_get_info`

They pass over all of the blocks, and find a heap that is as it should be.
-/
open BlockHeap

namespace MultiHeap

variable {s : Heap} {l r : List Block} {b c : Block} {prev fuel : Nat}

theorem Inv.blockDataSize_last (h : Inv s l) : blockDataSize s s.last_block = 0 := by
  simp only [blockDataSize]
  rw [if_pos (of_decide_eq_true h.isLastBlock_last)]

theorem Inv.align_last (h : Inv s l) : align (s.header s.last_block) = 0 := of_decide_eq_true h.isLastBlock_last

/-- The loop of `multi_heap_check`, once it is behind the blocks of `l`: the last block that it met was `c`. -/
theorem checkLoop_spec (h : Inv s (l ++ r)) (hc : Coalesced r) (hprev : Header s prev c) (hlt : prev < blockAt s l)
    (hadj : c.free = true → isFirstBlock s prev = false → ∀ b ∈ r.head?, b.free = false)
    (hfuel : r.length + 2 ≤ fuel) :
    checkLoop s fuel (blockAt s l) prev (BlockHeap.nextFree 4 s.last_block (blockAt s l) r) (freeLen l) true =
      some (s.last_block, freeLen (l ++ r), true) := by
  have hfirst := h.first_lt
  induction r generalizing l prev c fuel with
  | nil =>
    obtain ⟨fuel, rfl⟩ : ∃ k, fuel = k + 2 := ⟨fuel - 2, by simp only [List.length_nil] at hfuel; omega⟩
    have hend := h.end_eq
    rw [span_nil] at hend
    rw [List.append_nil] at h ⊢
    rw [show blockAt s l = s.last_block by omega] at hlt hfirst ⊢
    have hne : isFirstBlock s s.last_block = false := by
      simp only [isFirstBlock, decide_eq_false_iff_not]
      omega
    rw [checkLoop, if_neg (by omega), if_neg (by omega), if_pos h.isFree_last]
    simp only [h.isLastBlock_last, h.align_last, hne, h.blockDataSize_last, BlockHeap.nextFree]
    rw [checkLoop, if_pos rfl]
    simp
  | cons b r ih =>
    obtain ⟨fuel, rfl⟩ : ∃ k, fuel = k + 1 := ⟨fuel - 1, by omega⟩
    have hlast := h.lt_last
    have hh : Header s (blockAt s l) b := h.header
    have h' : Inv s ((l ++ [b]) ++ r) := by rwa [List.append_assoc]
    have hne : isFirstBlock s (blockAt s l) = false := by
      simp only [isFirstBlock, decide_eq_false_iff_not]
      omega
    have hfuel' : r.length + 2 ≤ fuel := Nat.le_of_succ_le_succ (by simpa only [List.length_cons] using hfuel)
    have hrest := ih h' hc.2 hh (by rw [blockAt_concat]; omega) (fun hf _ => hc.1 hf) hfuel' h'.first_lt
    rw [blockAt_concat, freeLen_append, freeLen_cons, freeLen_nil, List.append_assoc, List.singleton_append] at hrest
    rw [checkLoop, if_neg (by omega), if_neg (by omega), hh.isFree]
    simp only [hh.align_header, hne, hh.blockDataSize, hh.isLastBlock]
    cases hb : b.free with
    | false =>
      rw [BlockHeap.nextFree, if_neg (by simp)]
      simpa [hb] using hrest
    | true =>
      have hprevFree : isFree s prev = true → isFirstBlock s prev = true := by
        rw [hprev.isFree]
        intro hf
        by_contra hn
        exact absurd hb (by rw [hadj hf (by simpa using hn) b rfl]; simp)
      have hnext : s.nextFree (blockAt s l) = BlockHeap.nextFree 4 s.last_block (blockAt s l + 4 + b.len) r :=
        h.laid_behind.2.2.1 hb
      rw [BlockHeap.nextFree, if_pos hb, hnext]
      have hadjacent : (decide (prev ≠ 0 ∧ isFree s prev = true ∧ ¬ isFirstBlock s prev = true ∧ ¬ false = true)) =
          false := by
        rw [decide_eq_false_iff_not]
        rintro ⟨-, hf, hn, -⟩
        exact hn (hprevFree hf)
      rw [if_pos rfl, hadjacent]
      simpa [hb] using hrest

theorem multiHeapCheck_eq (h : Inv s l) (hc : Coalesced l) : multiHeapCheck s = true := by
  have hh := h.header_first
  have hend := h.length_add_two_le
  have hpos := h.pos
  have hlast := h.last
  have hfirst : isFirstBlock s s.first_block = true := by simp [isFirstBlock]
  have hloop := checkLoop_spec (l := []) h hc hh (by rw [blockAt_nil]; omega)
    (fun _ hn => absurd hfirst (by rw [hn]; simp)) hend
  rw [multiHeapCheck, checkLoop, if_neg (by omega), if_neg (by omega), hh.isFree]
  rw [← h.nextFree_first] at hloop
  simp only [hh.align_header, hfirst, firstBlock]
  rw [blockAt_nil] at hloop
  simp only [freeLen_nil, List.nil_append] at hloop
  simp [hloop, h.isFree_last, h.free]

/-! ## `multi_heap_get_info` -/

/-- The blocks are counted. -/
structure Counted (a : Nat) (r : List Block) (info info' : Info) : Prop where
  total_free_bytes : info'.total_free_bytes = info.total_free_bytes + freeLen r
  total_allocated_bytes : info'.total_allocated_bytes = info.total_allocated_bytes + ((used 4 a r).map Prod.snd).sum
  allocated_blocks : info'.allocated_blocks = info.allocated_blocks + (used 4 a r).length
  total_blocks : info'.total_blocks = info.total_blocks + r.length
  largest : info.largest_free_block ≤ info'.largest_free_block ∧
    ∀ b ∈ r, b.free = true → b.len ≤ info'.largest_free_block

theorem infoLoop_spec (h : Inv s (l ++ r)) (hfuel : r.length < fuel) (info : Info) :
    ∃ info', infoLoop s fuel (blockAt s l) info = .ok info' ∧ Counted (blockAt s l) r info info' := by
  induction r generalizing l fuel info with
  | nil =>
    obtain ⟨fuel, rfl⟩ : ∃ k, fuel = k + 1 := ⟨fuel - 1, by omega⟩
    have hend := h.end_eq
    rw [span_nil] at hend
    refine ⟨info, ?_, rfl, rfl, rfl, rfl, Nat.le_refl _, by simp⟩
    rw [infoLoop, show blockAt s l = s.last_block by omega, if_pos h.isLastBlock_last]
  | cons b r ih =>
    obtain ⟨fuel, rfl⟩ : ∃ k, fuel = k + 1 := ⟨fuel - 1, by omega⟩
    have hh : Header s (blockAt s l) b := h.header
    have h' : Inv s ((l ++ [b]) ++ r) := by rwa [List.append_assoc]
    have hfuel' : r.length < fuel := Nat.lt_of_succ_lt_succ (by simpa only [List.length_cons] using hfuel)
    rw [infoLoop, hh.isLastBlock, if_neg (by simp)]
    simp only [hh.blockDataSize, hh.isFree, hh.getNextBlock]
    rw [ok_bind]
    cases hb : b.free with
    | true =>
      rw [if_pos rfl]
      obtain ⟨info', heq, hcount⟩ := ih h' hfuel' _
      rw [blockAt_concat] at heq hcount
      refine ⟨info', heq, ?_⟩
      obtain ⟨h₁, h₂, h₃, h₄, h₅, h₆⟩ := hcount
      simp only at h₁ h₂ h₃ h₄ h₅
      refine ⟨?_, ?_, ?_, ?_, ?_, fun c hc hf => ?_⟩
      · rw [h₁, freeLen_cons, if_pos hb]
        omega
      · rw [h₂, used_cons_free hb]
      · rw [h₃, used_cons_free hb]
      · rw [h₄, List.length_cons]
        omega
      · split at h₅ <;> omega
      · rcases List.mem_cons.1 hc with rfl | hc
        · split at h₅ <;> omega
        · exact h₆ c hc hf
    | false =>
      rw [if_neg (by simp)]
      obtain ⟨info', heq, hcount⟩ := ih h' hfuel' _
      rw [blockAt_concat] at heq hcount
      refine ⟨info', heq, ?_⟩
      obtain ⟨h₁, h₂, h₃, h₄, h₅, h₆⟩ := hcount
      simp only at h₁ h₂ h₃ h₄ h₅
      refine ⟨?_, ?_, ?_, ?_, h₅, fun c hc hf => ?_⟩
      · rw [h₁, freeLen_cons, hb]
        simp
      · rw [h₂, used_cons_used hb, List.map_cons, List.sum_cons]
        omega
      · rw [h₃, used_cons_used hb, List.length_cons]
        omega
      · rw [h₄, List.length_cons]
        omega
      · rcases List.mem_cons.1 hc with rfl | hc
        · exact absurd hf (by rw [hb]; simp)
        · exact h₆ c hc hf

/-- The information is that of the blocks. -/
theorem multiHeapGetInfo_spec (h : Inv s l) : ∃ info, multiHeapGetInfo s = .ok info ∧
    info.total_free_bytes = s.free_bytes ∧ info.total_blocks = l.length ∧
    info.total_allocated_bytes = ((usedBlocks s l).map Prod.snd).sum ∧
    info.allocated_blocks = (usedBlocks s l).length ∧ ∀ b ∈ l, b.free = true → b.len ≤ info.largest_free_block := by
  have hh := h.header_first
  have hfuel : l.length < s.last_block := Nat.lt_of_succ_lt h.length_add_two_le
  obtain ⟨info, heq, hcount⟩ := infoLoop_spec (l := []) h hfuel ⟨0, 0, 0, 0, 0, 0, 0, 0⟩
  have htotal : info.total_free_bytes = s.free_bytes := by
    rw [hcount.total_free_bytes, h.free]
    exact Nat.zero_add _
  refine ⟨{ info with minimum_free_bytes := s.minimum_free_bytes, total_bytes := s.total_bytes }, ?_, htotal, ?_, ?_,
    ?_, hcount.largest.2⟩
  · rw [multiHeapGetInfo, hh.getNextBlock, ok_bind]
    rw [blockAt_nil] at heq
    rw [show s.first_block + 4 + firstBlock.len = s.first_block + 12 from rfl, heq, ok_bind, ensure_of htotal, ok_bind]
  · rw [hcount.total_blocks, Nat.zero_add]
  · rw [hcount.total_allocated_bytes, Nat.zero_add]
    rfl
  · rw [hcount.allocated_blocks, Nat.zero_add]
    rfl

end MultiHeap
