import LittleBuddy.Lib.Bytes
import LittleBuddy.Lib.DoWhile
import LittleBuddy.Lib.NorMem
import Mathlib
/-!
# The core dump

`services/nv_section/log_section/coredump_section.c` and `CrashCatcher_DumpMemory` of
`utils/crash_catcher/HexDump.c`, with `CORE_DUMP_TO_FLASH`: the section is erased at
the start of a dump, and each range of the memory is written behind the last one, byte
by byte or, from a sector's size on, sector by sector.

The synchronous calls of the norflash layer succeed, and the memory does not change
while it is dumped.
-/
open Bytes NorMem DoWhile

namespace CoreDump

/-! ## The code -/

/-- `COREDUMP_SECTOR_SIZE`. -/
abbrev sectorSize : Nat := 0x1000

/-- `__coredump_section_start` and `__coredump_section_end` as the link script places them. -/
structure Section where
  start : Nat
  stop : Nat
  lt : start < stop
  stop_lt : stop < 2 ^ 32
  start_aligned : start % sectorSize = 0
  stop_aligned : stop % sectorSize = 0

/-- `CrashCatcherElementSizes`. -/
inductive ElementSize where
  | byte
  | halfword
  | word
  deriving DecidableEq

def ElementSize.size : ElementSize → Nat
  | .byte => 1
  | .halfword => 2
  | .word => 4

/-- The arguments of `CrashCatcher_DumpMemory`. -/
structure Range where
  pvMemory : Nat
  elementSize : ElementSize
  elementCount : Nat

def Range.bytes (r : Range) : Nat := r.elementSize.size * r.elementCount

/-- `dump_direction`; `DUMP_XMODEM` is not reached in this build. -/
inductive Direction where
  | term
  | flash
  deriving DecidableEq

/-- The static variable and the flash; and for the specification the writes of the flash, and the reads of the memory
with the range of their call. -/
structure Sys where
  coredump_flash_addr_offset : Nat
  flash : Mem
  writes : List (Nat × Nat)
  range : Range
  reads : List (Range × Nat × Nat)

/-- `a - b` of two `uint32_t`. -/
def subU (a b : Nat) : Nat := (a + 2 ^ 32 - b) % 2 ^ 32

/-- The loop of `core_dump_erase_section`. -/
def eraseStep (sec : Section) (s : Sys) : Sys × Bool :=
  let s := { s with
    flash := erase s.flash s.coredump_flash_addr_offset sectorSize
    coredump_flash_addr_offset := s.coredump_flash_addr_offset + sectorSize }
  if s.coredump_flash_addr_offset = sec.stop then ({ s with coredump_flash_addr_offset := sec.start }, false) else (s, true)

/-- `core_dump_erase_section`. -/
def coreDumpEraseSection (sec : Section) (fuel : Nat) (s : Sys) : Option Sys := doWhile (eraseStep sec) fuel s

section Write

variable (mem : Mem)

/-- `norflash_api_write` of `len` bytes from `ptr` at the offset, which moves on. -/
def write (ptr len : Nat) (s : Sys) : Sys :=
  { s with
    coredump_flash_addr_offset := s.coredump_flash_addr_offset + len
    flash := program s.flash s.coredump_flash_addr_offset len fun j => mem (ptr + j)
    writes := s.writes ++ [(s.coredump_flash_addr_offset, len)]
    reads := s.reads ++ [(s.range, ptr, len)] }

/-- The variables of `core_dump_write_large`. -/
structure Large where
  sys : Sys
  ptr : Nat
  remain_len : Nat

def Large.write (len : Nat) (w : Large) : Large := ⟨CoreDump.write mem w.ptr len w.sys, w.ptr + len, subU w.remain_len len⟩

/-- The piece up to the next sector. -/
def Large.align (w : Large) : Large :=
  let offset := w.sys.coredump_flash_addr_offset
  if offset % sectorSize ≠ 0 then w.write mem (sectorSize - (offset - offset / sectorSize * sectorSize)) else w

/-- The loop of `core_dump_write_large`. -/
def writeLargeStep (w : Large) : Large × Bool :=
  let w := w.align mem
  let w := if w.remain_len < sectorSize then w.write mem w.remain_len else w.write mem sectorSize
  (w, w.remain_len > 0)

/-- `core_dump_write_large`. -/
def coreDumpWriteLarge (fuel ptr len : Nat) (s : Sys) : Option Sys :=
  (doWhile (writeLargeStep mem) fuel ⟨s, ptr, len⟩).map Large.sys

/-- `core_dump_write`: `len` calls of `norflash_api_write` for a byte each. -/
def coreDumpWrite : Nat → Nat → Sys → Sys
  | _, 0, s => s
  | ptr, len + 1, s => coreDumpWrite (ptr + 1) len (write mem ptr 1 s)

/-- The reads of `dumpBytes`, `dumpHalfwords` and `dumpWords`; into the flash `dumpBytes` puts nothing out. -/
def dumpElements (direction : Direction) (r : Range) (s : Sys) : Sys :=
  if r.elementSize = .byte ∧ direction = .flash then s
  else
    { s with
      reads := s.reads ++ (List.range r.elementCount).map fun i =>
        (s.range, r.pvMemory + r.elementSize.size * i, r.elementSize.size) }

/-- `CrashCatcher_DumpMemory`. -/
def crashCatcherDumpMemory (direction : Direction) (fuel : Nat) (r : Range) (s : Sys) : Option Sys :=
  let s := dumpElements direction r { s with range := r }
  let len := r.elementSize.size * r.elementCount % 2 ^ 32
  if len ≥ sectorSize then coreDumpWriteLarge mem fuel r.pvMemory len s else some (coreDumpWrite mem r.pvMemory len s)

/-- A sequence of calls. -/
def dumpAll (direction : Direction) (fuel : Nat) : List Range → Sys → Option Sys
  | [], s => some s
  | r :: ranges, s => (crashCatcherDumpMemory mem direction fuel r s).bind (dumpAll direction fuel ranges)

end Write

/-- After a start of the system. -/
def boot (sec : Section) (flash : Mem) : Sys := ⟨sec.start, flash, [], ⟨0, .byte, 0⟩, []⟩

/-! ## What it should do -/

def total (ranges : List Range) : Nat := (ranges.map Range.bytes).sum

/-- What the ranges hold, one behind the other. -/
def contents (mem : Mem) (ranges : List Range) : List UInt8 := ranges.flatMap fun r => read mem r.pvMemory r.bytes

/-- The reads are in the ranges, the writes (of a byte at least) in sectors of the section, which holds the ranges and
is erased behind them. -/
structure Dumped (sec : Section) (mem : Mem) (ranges : List Range) (s : Sys) : Prop where
  reads : ∀ r ∈ s.reads, r.1.pvMemory ≤ r.2.1 ∧ r.2.1 + r.2.2 ≤ r.1.pvMemory + r.1.bytes
  writes : ∀ w ∈ s.writes, 0 < w.2 ∧ sec.start ≤ w.1 ∧ w.1 + w.2 ≤ sec.stop ∧ w.1 % sectorSize + w.2 ≤ sectorSize
  holds : read s.flash sec.start (total ranges) = contents mem ranges
  behind : ∀ a, sec.start + total ranges ≤ a → a < sec.stop → s.flash a = 0xff

/-! ## Sectors -/

theorem mod_add_sector {n : Nat} (h : n % sectorSize = 0) : (n + sectorSize) % sectorSize = 0 := by rw [Nat.add_mod_right, h]

/-- The next sector is not behind an aligned end. -/
theorem add_sector_le {n stop : Nat} (h : n % sectorSize = 0) (hstop : stop % sectorSize = 0) (hlt : n < stop) :
    n + sectorSize ≤ stop := by
  unfold sectorSize at *
  omega

/-- The alignment piece. -/
theorem alignPiece_eq (n : Nat) : sectorSize - (n - n / sectorSize * sectorSize) = sectorSize - n % sectorSize := by
  unfold sectorSize
  omega

theorem alignPiece_le (n : Nat) : 0 < sectorSize - n % sectorSize ∧
    sectorSize - n % sectorSize ≤ sectorSize ∧ n % sectorSize + (sectorSize - n % sectorSize) = sectorSize := by
  unfold sectorSize
  omega

theorem add_alignPiece (n : Nat) : (n + (sectorSize - n % sectorSize)) % sectorSize = 0 := by
  unfold sectorSize
  omega

/-! ## The erase -/

section Erase

variable {sec : Section}

/-- Sectors up to the offset are erased. -/
structure Erasing (sec : Section) (s : Sys) : Prop where
  aligned : s.coredump_flash_addr_offset % sectorSize = 0
  start_le : sec.start ≤ s.coredump_flash_addr_offset
  lt : s.coredump_flash_addr_offset < sec.stop
  erased : ∀ a, sec.start ≤ a → a < s.coredump_flash_addr_offset → s.flash a = 0xff
  writes : s.writes = []
  reads : s.reads = []

/-- The whole section is erased, and the offset is at its start. -/
structure Erased (sec : Section) (s : Sys) : Prop where
  offset : s.coredump_flash_addr_offset = sec.start
  erased : ∀ a, sec.start ≤ a → a < sec.stop → s.flash a = 0xff
  writes : s.writes = []
  reads : s.reads = []

theorem eraseStep_cases {s : Sys} (h : Erasing sec s) :
    (eraseStep sec s).2 = true ∧ Erasing sec (eraseStep sec s).1 ∧
        (eraseStep sec s).1.coredump_flash_addr_offset = s.coredump_flash_addr_offset + sectorSize ∨
      (eraseStep sec s).2 = false ∧ Erased sec (eraseStep sec s).1 := by
  have haligned := h.aligned
  have hstop := sec.stop_aligned
  have hlt := h.lt
  have herased : ∀ a, sec.start ≤ a → a < s.coredump_flash_addr_offset + sectorSize →
      erase s.flash s.coredump_flash_addr_offset sectorSize a = 0xff := by
    intro a hstart hend
    by_cases hold : a < s.coredump_flash_addr_offset
    · exact (erase_other fun hin => absurd hin.1 (by omega)).trans (h.erased a hstart hold)
    · exact erase_of ⟨by omega, hend⟩
  unfold eraseStep
  by_cases hend : s.coredump_flash_addr_offset + sectorSize = sec.stop
  · rw [if_pos hend]
    refine .inr ⟨rfl, rfl, ?_, h.writes, h.reads⟩
    intro a hstart hstop
    exact herased a hstart (hend ▸ hstop)
  · rw [if_neg hend]
    refine .inl ⟨rfl, ⟨?_, ?_, ?_, herased, h.writes, h.reads⟩, rfl⟩
    · exact mod_add_sector haligned
    · exact Nat.le_add_right_of_le h.start_le
    · exact Nat.lt_of_le_of_ne (add_sector_le haligned hstop hlt) hend

theorem erase_ends (sec : Section) (flash : Mem) :
    ∃ n s, Erased sec s ∧ ∀ fuel, n ≤ fuel → coreDumpEraseSection sec fuel (boot sec flash) = some s := by
  have hends : Ends (eraseStep sec) (fun _ _ => True) (Erased sec) (boot sec flash) := by
    refine Ends.of_variant (Erasing sec) (fun s => sec.stop - s.coredump_flash_addr_offset) (fun _ _ => trivial) ?_ ?_ ?_
    · intro s h hlast
      obtain ⟨hmore, -⟩ | ⟨-, herased⟩ := eraseStep_cases h
      · rw [hlast] at hmore
        cases hmore
      · exact herased
    · intro s h hmore
      obtain ⟨-, hnext, hoffset⟩ | ⟨hlast, -⟩ := eraseStep_cases h
      · have hlt := h.lt
        have hnextlt := hnext.lt
        refine ⟨hnext, ?_⟩
        rw [hoffset] at hnextlt ⊢
        have hsector : 0 < sectorSize := by decide
        omega
      · rw [hlast] at hmore
        cases hmore
    · exact ⟨sec.start_aligned, Nat.le_refl _, sec.lt, fun a hle hlt => absurd hle (Nat.not_le.mpr hlt), rfl, rfl⟩
  exact hends.doWhile

end Erase

/-! ## Writes -/

section Write

variable {mem : Mem} {ptr n m : Nat} {s s' s'' : Sys}

/-- `n` bytes from `ptr` on are written at the offset, in writes that stay in their sectors. -/
structure Put (mem : Mem) (ptr n : Nat) (s s' : Sys) : Prop where
  offset : s'.coredump_flash_addr_offset = s.coredump_flash_addr_offset + n
  flash : s'.flash = program s.flash s.coredump_flash_addr_offset n fun j => mem (ptr + j)
  range : s'.range = s.range
  writes : ∀ w ∈ s'.writes, w ∈ s.writes ∨ 0 < w.2 ∧
    s.coredump_flash_addr_offset ≤ w.1 ∧ w.1 + w.2 ≤ s.coredump_flash_addr_offset + n ∧ w.1 % sectorSize + w.2 ≤ sectorSize
  reads : ∀ r ∈ s'.reads, r ∈ s.reads ∨ r.1 = s.range ∧ ptr ≤ r.2.1 ∧ r.2.1 + r.2.2 ≤ ptr + n

theorem Put.refl (mem : Mem) (ptr : Nat) (s : Sys) : Put mem ptr 0 s s :=
  ⟨rfl, (program_zero ..).symm, rfl, fun _ => .inl, fun _ => .inl⟩

theorem Put.one (hpos : 0 < n) (hsector : s.coredump_flash_addr_offset % sectorSize + n ≤ sectorSize) :
    Put mem ptr n s (write mem ptr n s) := by
  refine ⟨rfl, rfl, rfl, ?_, ?_⟩
  · intro w hw
    rcases List.mem_append.mp hw with hold | hnew
    · exact .inl hold
    · rw [List.mem_singleton.mp hnew]
      exact .inr ⟨hpos, Nat.le_refl _, Nat.le_refl _, hsector⟩
  · intro r hr
    rcases List.mem_append.mp hr with hold | hnew
    · exact .inl hold
    · rw [List.mem_singleton.mp hnew]
      exact .inr ⟨rfl, Nat.le_refl _, Nat.le_refl _⟩

theorem Put.trans (h : Put mem ptr n s s') (h' : Put mem (ptr + n) m s' s'') : Put mem ptr (n + m) s s'' := by
  refine ⟨?_, ?_, h'.range.trans h.range, ?_, ?_⟩
  · rw [h'.offset, h.offset, Nat.add_assoc]
  · rw [h'.flash, h.flash, h.offset, ← program_append]
    simp only [Nat.add_assoc]
  · intro w hw
    have hoffset := h.offset
    rcases h'.writes w hw with hmid | ⟨hpos, hlo, hhi, hsector⟩
    · rcases h.writes w hmid with hold | ⟨hpos, hlo, hhi, hsector⟩
      · exact .inl hold
      · exact .inr ⟨hpos, hlo, by omega, hsector⟩
    · exact .inr ⟨hpos, by omega, by omega, hsector⟩
  · intro r hr
    rcases h'.reads r hr with hmid | ⟨hrange, hlo, hhi⟩
    · rcases h.reads r hmid with hold | ⟨hrange, hlo, hhi⟩
      · exact .inl hold
      · exact .inr ⟨hrange, hlo, by omega⟩
    · exact .inr ⟨hrange.trans h.range, by omega, by omega⟩

theorem coreDumpWrite_put (mem : Mem) (ptr len : Nat) (s : Sys) : Put mem ptr len s (coreDumpWrite mem ptr len s) := by
  induction len generalizing ptr s with
  | zero => exact .refl mem ptr s
  | succ len ih =>
    have hbyte : s.coredump_flash_addr_offset % sectorSize + 1 ≤ sectorSize := Nat.mod_lt _ (by decide)
    have hrest := (Put.one Nat.one_pos hbyte).trans (ih (ptr + 1) (write mem ptr 1 s))
    rwa [Nat.add_comm 1 len] at hrest

/-! ## The sector-wise writer -/

/-- What the loop of `core_dump_write_large` keeps: the bytes before `ptr` are written, and an alignment piece fits
into what remains. -/
structure Writing (mem : Mem) (ptr len : Nat) (s : Sys) (w : Large) : Prop where
  put : Put mem ptr (len - w.remain_len) s w.sys
  at_ptr : w.ptr = ptr + (len - w.remain_len)
  le : w.remain_len ≤ len
  pos : 0 < w.remain_len
  room : w.sys.coredump_flash_addr_offset % sectorSize = 0 ∨ sectorSize ≤ w.remain_len

theorem subU_eq (hle : m ≤ n) (hlt : n < 2 ^ 32) : subU n m = n - m := by
  unfold subU
  omega

/-- A piece that fits into the sector and into what remains. -/
theorem piece_put {len k : Nat} {w : Large} (h : Put mem ptr (len - w.remain_len) s w.sys)
    (hptr : w.ptr = ptr + (len - w.remain_len)) (hle : w.remain_len ≤ len) (hlt : len < 2 ^ 32) (hpos : 0 < k)
    (hk : k ≤ w.remain_len)
    (hsector : w.sys.coredump_flash_addr_offset % sectorSize + k ≤ sectorSize) :
    (w.write mem k).remain_len = w.remain_len - k ∧ (w.write mem k).ptr = ptr + (len - (w.remain_len - k)) ∧
      Put mem ptr (len - (w.remain_len - k)) s (w.write mem k).sys := by
  have hsum : len - w.remain_len + k = len - (w.remain_len - k) := by omega
  refine ⟨subU_eq hk (by omega), ?_, ?_⟩
  · change w.ptr + k = _
    omega
  · rw [← hsum]
    exact h.trans (hptr ▸ Put.one hpos hsector)

/-- Behind the alignment piece the offset is at the start of a sector. -/
theorem Writing.align {len : Nat} {w : Large} (h : Writing mem ptr len s w) (hlt : len < 2 ^ 32) :
    Writing mem ptr len s (w.align mem) ∧ (w.align mem).sys.coredump_flash_addr_offset % sectorSize = 0 ∧
      (w.align mem).remain_len ≤ w.remain_len := by
  unfold Large.align
  by_cases hmod : w.sys.coredump_flash_addr_offset % sectorSize = 0
  · rw [if_neg (by omega)]
    exact ⟨h, hmod, Nat.le_refl _⟩
  · have hroom : sectorSize ≤ w.remain_len := h.room.resolve_left hmod
    rw [if_pos hmod, alignPiece_eq]
    obtain ⟨hpos, hpiece, hfill⟩ := alignPiece_le w.sys.coredump_flash_addr_offset
    obtain ⟨hremain, hptr, hput⟩ := piece_put h.put h.at_ptr h.le hlt hpos (Nat.le_trans hpiece hroom) (Nat.le_of_eq hfill)
    have haligned := add_alignPiece w.sys.coredump_flash_addr_offset
    have hle := h.le
    refine ⟨⟨?_, ?_, by omega, by omega, .inl haligned⟩, haligned, by omega⟩
    · rw [hremain]
      exact hput
    · rw [hremain]
      exact hptr

theorem writeLargeStep_cases {len : Nat} {w : Large} (h : Writing mem ptr len s w) (hlt : len < 2 ^ 32) :
    (writeLargeStep mem w).2 = true ∧ Writing mem ptr len s (writeLargeStep mem w).1 ∧
        (writeLargeStep mem w).1.remain_len < w.remain_len ∨
      (writeLargeStep mem w).2 = false ∧ Put mem ptr len s (writeLargeStep mem w).1.sys := by
  obtain ⟨halign, haligned, hle⟩ := h.align hlt
  unfold writeLargeStep
  generalize w.align mem = v at halign haligned hle ⊢
  have hpos := halign.pos
  have hvle := halign.le
  by_cases hrest : v.remain_len < sectorSize
  · -- the rest
    obtain ⟨hremain, -, hput⟩ := piece_put halign.put halign.at_ptr hvle hlt hpos (Nat.le_refl _) (by rw [haligned]; omega)
    rw [Nat.sub_self] at hremain hput
    simp only [if_pos hrest, hremain]
    exact .inr ⟨by decide, hput⟩
  · obtain ⟨hremain, hptr, hput⟩ := piece_put (k := sectorSize) halign.put halign.at_ptr hvle hlt (by decide) (Nat.not_lt.mp hrest)
      (Nat.le_of_eq (by rw [haligned, Nat.zero_add]))
    have hsector : 0 < sectorSize := by decide
    simp only [if_neg hrest, hremain]
    by_cases hmore : v.remain_len - sectorSize > 0
    · refine .inl ⟨decide_eq_true hmore, ⟨?_, ?_, by omega, by omega, .inl ?_⟩, by omega⟩
      · rw [hremain]
        exact hput
      · rw [hremain]
        exact hptr
      · exact mod_add_sector haligned
    · have hzero : v.remain_len - sectorSize = 0 := by omega
      rw [hzero] at hput
      exact .inr ⟨decide_eq_false hmore, hput⟩

/-- A call for a sector at least, from any offset. -/
theorem coreDumpWriteLarge_put {len : Nat} (hlen : sectorSize ≤ len) (hlt : len < 2 ^ 32) (ptr : Nat) (s : Sys) :
    ∃ n s', Put mem ptr len s s' ∧ ∀ fuel, n ≤ fuel → coreDumpWriteLarge mem fuel ptr len s = some s' := by
  have hstart : Writing mem ptr len s ⟨s, ptr, len⟩ := by
    have hnone : len - len = 0 := Nat.sub_self len
    refine ⟨?_, ?_, Nat.le_refl _, Nat.lt_of_lt_of_le (by decide) hlen, .inr hlen⟩
    · rw [hnone]
      exact .refl mem ptr s
    · rw [hnone]
      rfl
  have hends : Ends (writeLargeStep mem) (fun _ _ => True) (fun w => Put mem ptr len s w.sys) ⟨s, ptr, len⟩ := by
    refine Ends.of_variant (Writing mem ptr len s) Large.remain_len (fun _ _ => trivial) ?_ ?_ hstart
    · intro w h hlast
      obtain ⟨hmore, -⟩ | ⟨-, hput⟩ := writeLargeStep_cases h hlt
      · rw [hlast] at hmore
        cases hmore
      · exact hput
    · intro w h hmore
      obtain ⟨-, hnext, hless⟩ | ⟨hlast, -⟩ := writeLargeStep_cases h hlt
      · exact ⟨hnext, hless⟩
      · rw [hlast] at hmore
        cases hmore
  obtain ⟨n, w, hput, hrun⟩ := hends.doWhile
  refine ⟨n, w.sys, hput, fun fuel hfuel => ?_⟩
  rw [coreDumpWriteLarge, hrun fuel hfuel]
  rfl

/-! ## Calls -/

/-- What the calls so far have left, and what is still erased. -/
structure Dumping (sec : Section) (mem : Mem) (ranges : List Range) (s : Sys) : Prop where
  dumped : Dumped sec mem ranges s
  offset : s.coredump_flash_addr_offset = sec.start + total ranges

theorem dumpElements_eq (direction : Direction) (r : Range) (s : Sys) :
    ∃ reads, dumpElements direction r s = { s with reads := s.reads ++ reads } ∧
      ∀ x ∈ reads, x.1 = s.range ∧ r.pvMemory ≤ x.2.1 ∧ x.2.1 + x.2.2 ≤ r.pvMemory + r.bytes := by
  unfold dumpElements
  split
  · exact ⟨[], by rw [List.append_nil], List.forall_mem_nil _⟩
  · refine ⟨_, rfl, ?_⟩
    intro x hx
    obtain ⟨i, hi, rfl⟩ := List.mem_map.mp hx
    have hle := Nat.mul_le_mul_left r.elementSize.size (Nat.succ_le_of_lt (List.mem_range.mp hi))
    rw [Nat.mul_succ] at hle
    refine ⟨rfl, Nat.le_add_right _ _, ?_⟩
    rw [Nat.add_assoc]
    exact Nat.add_le_add_left hle _

/-- Either writer puts the range behind the ones before. -/
theorem dumpMemory_put (mem : Mem) (direction : Direction) {r : Range} (hr : r.bytes < 2 ^ 32) (s : Sys) :
    ∃ n s', Put mem r.pvMemory r.bytes (dumpElements direction r { s with range := r }) s' ∧
      ∀ fuel, n ≤ fuel → crashCatcherDumpMemory mem direction fuel r s = some s' := by
  have hlen : r.elementSize.size * r.elementCount % 2 ^ 32 = r.bytes := Nat.mod_eq_of_lt hr
  by_cases hlarge : r.bytes ≥ sectorSize
  · obtain ⟨n, s', hput, hrun⟩ := @coreDumpWriteLarge_put mem _ hlarge hr r.pvMemory
      (dumpElements direction r { s with range := r })
    refine ⟨n, s', hput, fun fuel hfuel => ?_⟩
    rw [crashCatcherDumpMemory, hlen, if_pos hlarge]
    exact hrun fuel hfuel
  · refine ⟨0, _, coreDumpWrite_put mem r.pvMemory r.bytes _, fun fuel _ => ?_⟩
    rw [crashCatcherDumpMemory, hlen, if_neg hlarge]

theorem total_snoc (ranges : List Range) (r : Range) : total (ranges ++ [r]) = total ranges + r.bytes := by
  rw [total, List.map_append, List.sum_append, List.map_singleton, List.sum_singleton, total]

theorem contents_snoc (mem : Mem) (ranges : List Range) (r : Range) :
    contents mem (ranges ++ [r]) = contents mem ranges ++ read mem r.pvMemory r.bytes := by
  rw [contents, List.flatMap_append, List.flatMap_singleton, contents]

/-- A call that fits behind the ones before. -/
theorem Dumping.call {sec : Section} {ranges : List Range} {r : Range} (h : Dumping sec mem ranges s)
    (direction : Direction) (hfits : sec.start + (total ranges + r.bytes) ≤ sec.stop)
    (hput : Put mem r.pvMemory r.bytes (dumpElements direction r { s with range := r }) s') :
    Dumping sec mem (ranges ++ [r]) s' := by
  obtain ⟨reads, heq, hreads⟩ := dumpElements_eq direction r { s with range := r }
  rw [heq] at hput
  have hoffset : sec.start + total ranges = s.coredump_flash_addr_offset := h.offset.symm
  have hflash : s'.flash = program s.flash (sec.start + total ranges) r.bytes fun j => mem (r.pvMemory + j) := by
    rw [hoffset]
    exact hput.flash
  refine ⟨⟨?_, ?_, ?_, ?_⟩, ?_⟩
  · intro x hx
    rcases hput.reads x hx with hold | ⟨hrange, hlo, hhi⟩
    · rcases List.mem_append.mp hold with hbefore | hnew
      · exact h.dumped.reads x hbefore
      · obtain ⟨hrange, hlo, hhi⟩ := hreads x hnew
        rw [hrange]
        exact ⟨hlo, hhi⟩
    · rw [hrange]
      exact ⟨hlo, hhi⟩
  · intro w hw
    rcases hput.writes w hw with hold | ⟨hpos, hlo, hhi, hsector⟩
    · exact h.dumped.writes w hold
    · have hlo : s.coredump_flash_addr_offset ≤ w.1 := hlo
      have hhi : w.1 + w.2 ≤ s.coredump_flash_addr_offset + r.bytes := hhi
      exact ⟨hpos, by omega, by omega, hsector⟩
  · rw [total_snoc, contents_snoc, read_add, ← h.dumped.holds]
    congr 1
    · -- the ranges before lie in front of the new one
      apply read_congr
      intro a _ hlt
      rw [hflash]
      exact program_other fun hin => absurd hin.1 (Nat.not_le.mpr hlt)
    · apply List.map_congr_left
      intro j hj
      have hlt := List.mem_range.mp hj
      have hin : InRange (sec.start + total ranges) r.bytes (sec.start + total ranges + j) := ⟨Nat.le_add_right _ _, by omega⟩
      rw [hflash, program_of hin, h.dumped.behind _ hin.1 (by omega), ff_and, Nat.add_sub_cancel_left]
  · intro a hle hlt
    rw [total_snoc] at hle
    rw [hflash, program_other fun hin => absurd hin.2 (by omega)]
    exact h.dumped.behind a (by omega) hlt
  · rw [hput.offset, total_snoc, ← Nat.add_assoc, hoffset]

theorem Dumping.calls {sec : Section} {ranges : List Range} (h : Dumping sec mem ranges s) (direction : Direction)
    (rest : List Range) (hfits : sec.start + (total ranges + total rest) ≤ sec.stop) :
    ∃ n s', Dumping sec mem (ranges ++ rest) s' ∧ ∀ fuel, n ≤ fuel → dumpAll mem direction fuel rest s = some s' := by
  induction rest generalizing ranges s with
  | nil =>
    refine ⟨0, s, ?_, fun _ _ => rfl⟩
    rw [List.append_nil]
    exact h
  | cons r rest ih =>
    have hsum : total (r :: rest) = r.bytes + total rest := List.sum_cons
    have hstop := sec.stop_lt
    obtain ⟨n, s₁, hput, hrun⟩ := dumpMemory_put mem direction (r := r) (by omega) s
    have hcall := h.call direction (by omega) hput
    obtain ⟨m, s', hlast, hruns⟩ := ih hcall (by rw [total_snoc]; omega)
    refine ⟨max n m, s', ?_, fun fuel hfuel => ?_⟩
    · rwa [List.append_assoc] at hlast
    · rw [dumpAll, hrun fuel (by omega), Option.bind_some]
      exact hruns fuel (by omega)

end Write

/-- After the erase, any sequence of calls that fits the section ends, reads in the ranges, writes within sectors of the
section, and leaves the ranges in it. -/
theorem core_dumped (sec : Section) (mem flash : Mem) (direction : Direction) (ranges : List Range)
    (hfits : sec.start + total ranges ≤ sec.stop) :
    ∃ n s, Dumped sec mem ranges s ∧
      ∀ fuel, n ≤ fuel → (coreDumpEraseSection sec fuel (boot sec flash)).bind (dumpAll mem direction fuel ranges) = some s := by
  obtain ⟨n, s₀, herased, hrun⟩ := erase_ends sec flash
  have hnone : Dumping sec mem [] s₀ := by
    refine ⟨⟨?_, ?_, rfl, ?_⟩, herased.offset⟩
    · rw [herased.reads]
      exact List.forall_mem_nil _
    · rw [herased.writes]
      exact List.forall_mem_nil _
    · intro a hle hlt
      exact herased.erased a hle hlt
  obtain ⟨m, s, hlast, hruns⟩ := hnone.calls direction ranges (by
    have hzero : total [] = 0 := rfl
    omega)
  refine ⟨max n m, s, hlast.dumped, fun fuel hfuel => ?_⟩
  rw [hrun fuel (by omega), Option.bind_some]
  exact hruns fuel (by omega)

/-- Three words, more than a sector of bytes, nothing, and a sector of halfwords, in three sectors. -/
theorem core_dumped_three :
    ∃ n s, Dumped ⟨0x1000, 0x4000, by decide, by decide, by decide, by decide⟩ (fun a => UInt8.ofNat a)
        [⟨0, .word, 3⟩, ⟨100, .byte, 5000⟩, ⟨7, .halfword, 0⟩, ⟨0, .halfword, 2048⟩] s ∧
      ∀ fuel, n ≤ fuel →
        (coreDumpEraseSection ⟨0x1000, 0x4000, by decide, by decide, by decide, by decide⟩ fuel (boot ⟨0x1000, 0x4000, by decide, by decide, by decide, by decide⟩ fun _ => 0)).bind
          (dumpAll (fun a => UInt8.ofNat a) .flash fuel
            [⟨0, .word, 3⟩, ⟨100, .byte, 5000⟩, ⟨7, .halfword, 0⟩, ⟨0, .halfword, 2048⟩]) = some s :=
  core_dumped _ _ _ _ _ (by decide)

end CoreDump
