import LittleBuddy.Lib.Cursor
import LittleBuddy.LogSection.Model
/-!
# The four buffers

From the buffer that is flushed next on: full buffers, then the one that is
being written, if there is one, and free ones.
-/
open Cursor NorMem

namespace LogDump

/-- The four buffers from the one that is flushed next on: the full ones, the one
that is being written, and free ones. -/
structure Buffers (s : Log) (full : List (List UInt8)) (part : Option (List UInt8)) : Prop where
  f_lt : s.f_seqnum < sectorBufferCount
  w_lt : s.w_seqnum < sectorBufferCount
  gap_eq : gap sectorBufferCount s.f_seqnum s.w_seqnum = full.length
  full_len : ∀ b ∈ full, b.length = sectorSize
  cells_eq : ∃ rest, cells s.data_buffer_list sectorBufferCount s.f_seqnum sectorBufferCount =
      full.map (⟨.written, ·⟩) ++ part.toList.map (⟨.writting, ·⟩) ++ rest ∧ ∀ b ∈ rest, b.state = .free

variable {s s' : Log} {full : List (List UInt8)} {part : Option (List UInt8)} {b : List UInt8}

theorem getElem?_buffers {i : Nat} (hf : s.f_seqnum < sectorBufferCount) (hi : i < sectorBufferCount) :
    (cells s.data_buffer_list sectorBufferCount s.f_seqnum sectorBufferCount)[gap sectorBufferCount s.f_seqnum i]? =
      some (s.data_buffer_list i) := getElem?_cells hf hi (gap_lt hf hi)

/-- The buffer that is written next. -/
theorem Buffers.w_buffer (h : Buffers s full part) :
    (∀ b, part = some b → s.data_buffer_list s.w_seqnum = ⟨.writting, b⟩) ∧
    (part = none → (s.data_buffer_list s.w_seqnum).state = .free) := by
  have hget := getElem?_buffers h.f_lt h.w_lt
  obtain ⟨rest, hcells, hfree⟩ := h.cells_eq
  rw [hcells, h.gap_eq, List.append_assoc, List.getElem?_append_right (by simp), List.length_map, Nat.sub_self] at hget
  constructor
  · rintro b rfl
    exact (Option.some.inj hget).symm
  · rintro rfl
    exact hfree _ (List.mem_of_getElem? hget)

/-- The buffer that is flushed next. -/
theorem Buffers.f_buffer (h : Buffers s full part) :
    (∀ b full', full = b :: full' → s.data_buffer_list s.f_seqnum = ⟨.written, b⟩) ∧
    (∀ b, full = [] → part = some b → s.data_buffer_list s.f_seqnum = ⟨.writting, b⟩) ∧
    (full = [] → part = none → (s.data_buffer_list s.f_seqnum).state = .free) := by
  have hget := getElem?_buffers h.f_lt h.f_lt
  obtain ⟨rest, hcells, hfree⟩ := h.cells_eq
  rw [hcells, gap_self] at hget
  refine ⟨?_, ?_, ?_⟩
  · rintro b full' rfl
    exact (Option.some.inj hget).symm
  · rintro b rfl rfl
    exact (Option.some.inj hget).symm
  · rintro rfl rfl
    exact hfree _ (List.mem_of_getElem? hget)

theorem allFree_iff (hf : s.f_seqnum < sectorBufferCount) : allFree s = true ↔
    ∀ b ∈ cells s.data_buffer_list sectorBufferCount s.f_seqnum sectorBufferCount, b.state = .free := by
  rw [allFree, List.all_eq_true]
  constructor
  · intro h b hb
    obtain ⟨i, hi, -, rfl⟩ := (mem_cells hf (Nat.le_refl _)).1 hb
    exact of_decide_eq_true (h i (List.mem_range.2 hi))
  · intro h i hi
    have hlt := List.mem_range.1 hi
    exact decide_eq_true (h _ ((mem_cells hf (Nat.le_refl _)).2 ⟨i, hlt, gap_lt hf hlt, rfl⟩))

theorem Buffers.allFree_iff (h : Buffers s full part) : allFree s = true ↔ full = [] ∧ part = none := by
  rw [LogDump.allFree_iff h.f_lt]
  obtain ⟨rest, hcells, hfree⟩ := h.cells_eq
  rw [hcells]
  constructor
  · intro hall
    constructor
    · cases hfull : full with
      | nil => rfl
      | cons b full' => exact absurd (hall ⟨.written, b⟩ (by simp [hfull])) (by simp)
    · cases hpart : part with
      | none => rfl
      | some b => exact absurd (hall ⟨.writting, b⟩ (by simp [hpart])) (by simp)
  · rintro ⟨rfl, rfl⟩
    exact hfree

theorem nextSeqnum_eq (i : Nat) : nextSeqnum i = next sectorBufferCount i := rfl

/-- What is left after the first of the buffers is freed. -/
theorem cells_free (hf : s.f_seqnum < sectorBufferCount) (b : DataBuffer) :
    cells (Function.update s.data_buffer_list s.f_seqnum b) sectorBufferCount (nextSeqnum s.f_seqnum)
      sectorBufferCount = (cells s.data_buffer_list sectorBufferCount s.f_seqnum sectorBufferCount).tail ++ [b] := by
  have hupdate := cells_update (a := s.data_buffer_list) hf hf (gap_lt hf hf) (Nat.le_refl _) b
  rw [nextSeqnum_eq, cells_rotate hf, Function.update_self, hupdate, gap_self]
  cases cells s.data_buffer_list sectorBufferCount s.f_seqnum sectorBufferCount <;> rfl

/-- The first full buffer is flushed. -/
theorem Buffers.free_full (h : Buffers s (b :: full) part) {flash_offs : Nat} {flash : Mem} {flash_state : FlashState} :
    Buffers { s with
      data_buffer_list := Function.update s.data_buffer_list s.f_seqnum ⟨.free, b⟩, f_seqnum := nextSeqnum s.f_seqnum
      flash_offs, flash, flash_state } full part := by
  obtain ⟨rest, hcells, hfree⟩ := h.cells_eq
  have hne : s.f_seqnum ≠ s.w_seqnum := by
    intro heq
    have hgap := h.gap_eq
    rw [heq, gap_self] at hgap
    cases hgap
  have hgap := gap_next_left h.f_lt h.w_lt hne
  rw [h.gap_eq] at hgap
  exact {
    f_lt := next_lt h.f_lt
    w_lt := h.w_lt
    gap_eq := Nat.succ.inj hgap
    full_len := fun b hb => h.full_len b (List.mem_cons_of_mem _ hb)
    cells_eq := by
      refine ⟨rest ++ [⟨.free, b⟩], ?_, ?_⟩
      · dsimp only
        rw [cells_free h.f_lt, hcells]
        simp
      · intro b' hb'
        rcases List.mem_append.1 hb' with hb' | hb'
        · exact hfree b' hb'
        · rw [List.mem_singleton.1 hb'] }

/-- The buffer that is being written is flushed, the last one in use. -/
theorem Buffers.free_part (h : Buffers s [] (some b)) (buffer : List UInt8) {flash_offs : Nat} {flash : Mem}
    {flash_state : FlashState} :
    allFree { s with
      data_buffer_list := Function.update s.data_buffer_list s.f_seqnum ⟨.free, buffer⟩, f_seqnum := nextSeqnum s.f_seqnum
      flash_offs, flash, flash_state } = true := by
  obtain ⟨rest, hcells, hfree⟩ := h.cells_eq
  rw [LogDump.allFree_iff (next_lt h.f_lt)]
  dsimp only
  rw [cells_free h.f_lt, hcells]
  intro b' hb'
  rcases List.mem_append.1 hb' with hb' | hb'
  · exact hfree b' hb'
  · rw [List.mem_singleton.1 hb']

/-- A write to the buffer behind the full ones. -/
theorem Buffers.cells_write (h : Buffers s full part) (b : DataBuffer) :
    ∃ rest, cells (Function.update s.data_buffer_list s.w_seqnum b) sectorBufferCount s.f_seqnum sectorBufferCount =
      full.map (⟨.written, ·⟩) ++ b :: rest ∧ ∀ b ∈ rest, b.state = .free := by
  have hlt := gap_lt h.f_lt h.w_lt
  have hlength : (cells s.data_buffer_list sectorBufferCount s.f_seqnum sectorBufferCount).length = sectorBufferCount :=
    length_cells
  obtain ⟨rest, hcells, hfree⟩ := h.cells_eq
  rw [cells_update h.f_lt h.w_lt hlt (Nat.le_refl _), hcells, h.gap_eq, List.append_assoc,
    List.set_append_right _ _ (by simp), List.length_map, Nat.sub_self]
  cases part with
  | some b' => exact ⟨rest, rfl, hfree⟩
  | none =>
    cases rest with
    | nil =>
      rw [hcells] at hlength
      simp only [Option.toList_none, List.map_nil, List.append_nil, List.length_map] at hlength
      rw [h.gap_eq] at hlt
      omega
    | cons b' rest => exact ⟨rest, rfl, fun b hb => hfree b (List.mem_cons_of_mem _ hb)⟩

theorem Buffers.write (h : Buffers s full part) (b : List UInt8) (seqnum : UInt32) (is_bootup : Bool) :
    Buffers { s with
      data_buffer_list := Function.update s.data_buffer_list s.w_seqnum ⟨.writting, b⟩
      cur_dump_seqnum := seqnum, is_bootup } full (some b) where
  f_lt := h.f_lt
  w_lt := h.w_lt
  gap_eq := h.gap_eq
  full_len := h.full_len
  cells_eq := by
    obtain ⟨rest, hcells, hfree⟩ := h.cells_write ⟨.writting, b⟩
    exact ⟨rest, by simpa using hcells, hfree⟩

/-- The buffer that is being written gets full, and is not the last one. -/
theorem Buffers.fill (h : Buffers s full part) (hb : b.length = sectorSize) (hroom : full.length + 1 < sectorBufferCount) :
    ∃ s', nextBuffer { s with data_buffer_list := Function.update s.data_buffer_list s.w_seqnum ⟨.written, b⟩ } = some s' ∧
      s' = { s with
        data_buffer_list := Function.update s.data_buffer_list s.w_seqnum ⟨.written, b⟩
        w_seqnum := nextSeqnum s.w_seqnum } ∧
      Buffers s' (full ++ [b]) none := by
  have hne : next sectorBufferCount s.w_seqnum ≠ s.f_seqnum := by
    intro heq
    have hgap := (next_eq_iff h.f_lt h.w_lt).1 heq
    rw [h.gap_eq] at hgap
    exact Nat.ne_of_lt hroom hgap
  have hgap := gap_next_right h.f_lt hne
  rw [h.gap_eq] at hgap
  have hnew : Buffers { s with
      data_buffer_list := Function.update s.data_buffer_list s.w_seqnum ⟨.written, b⟩
      w_seqnum := nextSeqnum s.w_seqnum } (full ++ [b]) none := {
    f_lt := h.f_lt
    w_lt := next_lt h.w_lt
    gap_eq := by
      rw [List.length_append, List.length_singleton]
      exact hgap
    full_len := by
      intro b' hb'
      rcases List.mem_append.1 hb' with hb' | hb'
      · exact h.full_len b' hb'
      · rw [List.mem_singleton.1 hb', hb]
    cells_eq := by
      obtain ⟨rest, hcells, hfree⟩ := h.cells_write ⟨.written, b⟩
      exact ⟨rest, by simpa using hcells, hfree⟩ }
  refine ⟨_, ?_, rfl, hnew⟩
  have hfree := hnew.w_buffer.2 rfl
  dsimp only at hfree
  rw [nextBuffer]
  dsimp only
  rw [nextSeqnum_eq, if_neg hne, if_neg]
  rw [nextSeqnum_eq] at hfree
  rw [hfree]
  decide

end LogDump
