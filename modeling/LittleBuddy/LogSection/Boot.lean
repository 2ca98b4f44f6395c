import LittleBuddy.Lib.SectorRing
import LittleBuddy.LogSection.Model
/-!
# The log area at the start

`_get_seqnum` looks for the sector that was written last. In a log area that
holds a log whose sectors are numbered it finds the next number and its sector.
-/
open Bytes NorMem SectorRing

namespace LogDump

/-- The length of the header, and of what is left for the log in a sector. -/
abbrev headerLen : Nat := 16
abbrev payloadLen : Nat := sectorSize - headerLen

theorem sectorSize_eq : sectorSize = 4096 := rfl

@[simp] theorem length_header (seqnum : UInt32) (is_bootup : Bool) : (header seqnum is_bootup).length = headerLen := by
  simp [header]

/-- Every block begins with a header with its number. -/
def Numbered (blocks : List (List UInt8)) : Prop :=
  ∀ i b, blocks[i]? = some b → ∃ is_bootup payload, b = header (UInt32.ofNat i) is_bootup ++ payload

/-- The log area holds the last blocks of a log, and no header where it has none. -/
structure LogArea (count : Nat) (flash : Mem) (blocks : List (List UInt8)) (spare : Nat) : Prop where
  holds : Holds sectorSize count flash blocks spare
  numbered : Numbered blocks
  blank : ∀ j, j < count → Vacant count spare blocks.length j → readHeader flash j = none

variable {count spare : Nat} {flash : Mem} {blocks : List (List UInt8)}

/-! ## Headers -/

theorem read_split {m : Nat → UInt8} {a k n : Nat} {l₁ l₂ : List UInt8} (h : read m a (k + n) = l₁ ++ l₂)
    (hk : l₁.length = k) : read m a k = l₁ ∧ read m (a + k) n = l₂ := by
  rw [read_add] at h
  exact List.append_inj h (by rw [length_read, hk])

theorem readHeader_of_read {sector : Nat} {seqnum : UInt32} {is_bootup : Bool} {payload : List UInt8}
    (h : read flash (sector * sectorSize) (header seqnum is_bootup ++ payload).length =
      header seqnum is_bootup ++ payload) : readHeader flash sector = some seqnum := by
  have hlen : (header seqnum is_bootup ++ payload).length = 4 + (4 + (4 + (4 + payload.length))) := by
    rw [List.length_append, length_header]
    simp only [headerLen]
    omega
  rw [hlen, header, List.append_assoc, List.append_assoc, List.append_assoc] at h
  obtain ⟨hmagic, h⟩ := read_split h (length_leBytes ..)
  obtain ⟨hversion, h⟩ := read_split h (length_leBytes ..)
  obtain ⟨hseqnum, -⟩ := read_split h (length_leBytes ..)
  rw [Nat.add_assoc] at hseqnum
  have hlt : seqnum.toNat < 256 ^ 4 := seqnum.toNat_lt
  rw [readHeader, hmagic, hversion, hseqnum, ofLe_leBytes hlt, ofLe_leBytes (by decide), ofLe_leBytes (by decide),
    if_pos ⟨rfl, rfl⟩, UInt32.ofNat_toNat]

/-- An erased sector has no header. -/
theorem readHeader_erased {sector : Nat}
    (h : ∀ a, InRange (sector * sectorSize) sectorSize a → flash a = 0xff) : readHeader flash sector = none := by
  have hread : read flash (sector * sectorSize) 4 = [0xff, 0xff, 0xff, 0xff] := by
    apply List.map_congr_left (g := fun _ => 0xff)
    intro j hj
    have hlt := List.mem_range.1 hj
    have hsize := sectorSize_eq
    refine h _ ⟨Nat.le_add_right .., ?_⟩
    omega
  refine if_neg fun hheader => ?_
  rw [hread] at hheader
  exact absurd hheader.1 (by decide)

theorem readHeader_congr {flash' : Mem} {sector : Nat}
    (h : ∀ a, InRange (sector * sectorSize) sectorSize a → flash' a = flash a) :
    readHeader flash' sector = readHeader flash sector := by
  have hpart : ∀ k, k ≤ 8 → read flash' (sector * sectorSize + k) 4 = read flash (sector * sectorSize + k) 4 := by
    intro k hk
    apply read_congr
    intro a hle hlt
    have hin : k + 4 ≤ sectorSize := le_trans (Nat.add_le_add_right hk 4) (by decide)
    refine h a ⟨le_trans (Nat.le_add_right ..) hle, lt_of_lt_of_le hlt ?_⟩
    rw [Nat.add_assoc]
    exact Nat.add_le_add_left hin _
  have hfirst := hpart 0 (by omega)
  rw [Nat.add_zero] at hfirst
  rw [readHeader, readHeader, hfirst, hpart 4 (by omega), hpart 8 (by omega)]

/-! ## The next block -/

theorem not_inRange_sector {sector a len : Nat} (hsector : sector < count) (h : sector ≠ blocks.length % count)
    (ha : InRange (sector * sectorSize) sectorSize a) (hlen : len ≤ sectorSize) :
    ¬ InRange (addr sectorSize count blocks.length) len a := by
  have hmod : sector % count = sector := Nat.mod_eq_of_lt hsector
  refine not_inRange (i := sector) (by rwa [hmod]) ?_ hlen
  rwa [addr, hmod]

theorem LogArea.erase (h : LogArea count flash blocks spare) (hspare : spare ≤ 1) :
    LogArea count (erase flash (addr sectorSize count blocks.length) sectorSize) blocks 1 where
  holds := h.holds.erase hspare
  numbered := h.numbered
  blank sector hsector hvacant := by
    by_cases heq : sector = blocks.length % count
    · subst heq
      exact readHeader_erased fun a ha => erase_of ha
    · rw [← h.blank sector hsector (hvacant.of_erase hspare heq)]
      apply readHeader_congr
      intro a ha
      exact erase_other (not_inRange_sector hsector heq ha le_rfl)

theorem LogArea.program {b payload : List UInt8} {is_bootup : Bool} (h : LogArea count flash blocks 1)
    (herased : ∀ a, InRange (addr sectorSize count blocks.length) sectorSize a → flash a = 0xff)
    (hb : b = header (UInt32.ofNat blocks.length) is_bootup ++ payload) (hlen : b.length ≤ sectorSize) :
    LogArea count (program flash (addr sectorSize count blocks.length) b.length (bufferOf b)) (blocks ++ [b]) 0 where
  holds := h.holds.program herased hlen
  numbered i b' hb' := by
    rcases Nat.lt_or_ge i blocks.length with hlt | hge
    · rw [List.getElem?_append_left hlt] at hb'
      exact h.numbered i b' hb'
    · rw [List.getElem?_append_right hge] at hb'
      obtain ⟨hi, rfl⟩ := List.getElem?_eq_some_iff.1 hb'
      rw [List.length_singleton] at hi
      obtain rfl : i = blocks.length := by omega
      exact ⟨is_bootup, payload, by simpa using hb⟩
  blank sector hsector hvacant := by
    rw [List.length_append, List.length_singleton] at hvacant
    obtain ⟨hvacant, hne⟩ := hvacant.of_program (Nat.zero_lt_of_lt hsector)
    rw [← h.blank sector hsector hvacant]
    apply readHeader_congr
    intro a ha
    exact program_other (not_inRange_sector hsector hne ha hlen)

/-! ## The last block -/

theorem LogArea.readHeader_last (h : LogArea count flash blocks spare) {i : Nat} (hi : Last count spare blocks.length i) :
    readHeader flash (i % count) = some (UInt32.ofNat i) := by
  have hget := List.getElem?_eq_getElem hi.1
  have hread := h.holds.held i _ hi hget
  obtain ⟨is_bootup, payload, hb⟩ := h.numbered i _ hget
  rw [hb] at hread
  exact readHeader_of_read hread

/-- After the sectors below `k`: the greatest number of their blocks, and its sector. -/
structure Scanned (count spare n k : Nat) (r : Scan) : Prop where
  le : ∀ i, Last count spare n i → i % count < k → i ≤ r.max_dump_seqnum.toNat
  max : (∃ i, Last count spare n i ∧ r.max_dump_seqnum = UInt32.ofNat i ∧ r.max_sector_seqnum = i % count) ∨
    (r.max_dump_seqnum = 0 ∧ r.max_sector_seqnum = 0)
  existed : r.is_existed = true ↔ ∃ i, Last count spare n i ∧ i % count < k

theorem toNat_ofNat {i n : Nat} (hi : i < n) (hn : n ≤ UInt32.size) : (UInt32.ofNat i).toNat = i := by
  rw [UInt32.toNat_ofNat']
  exact Nat.mod_eq_of_lt (lt_of_lt_of_le hi hn)

theorem scanned_step (h : LogArea count flash blocks spare) (hn : blocks.length ≤ UInt32.size) {k : Nat} {r : Scan}
    (hk : k < count) (hr : Scanned count spare blocks.length k r) :
    Scanned count spare blocks.length (k + 1) (scanSector flash r k) := by
  by_cases hvacant : Vacant count spare blocks.length k
  · rw [scanSector, h.blank k hk hvacant]
    have hstep : ∀ i, Last count spare blocks.length i → (i % count < k + 1 ↔ i % count < k) := by
      intro i hlast
      have := hvacant i hlast
      omega
    refine ⟨fun i hlast hlt => hr.le i hlast ((hstep i hlast).1 hlt), hr.max, ?_⟩
    rw [hr.existed]
    exact exists_congr fun i => and_congr_right fun hlast => (hstep i hlast).symm
  · obtain ⟨i, hlast, rfl⟩ : ∃ i, Last count spare blocks.length i ∧ i % count = k := by
      unfold Vacant at hvacant
      push Not at hvacant
      exact hvacant
    have hi := toNat_ofNat hlast.1 hn
    have hnext : ∃ i', Last count spare blocks.length i' ∧ i' % count < i % count + 1 := ⟨i, hlast, Nat.lt_succ_self _⟩
    -- the block of this sector is the only one that is new
    have hle : ∀ i', Last count spare blocks.length i' → i' % count < i % count + 1 →
        i' ≤ r.max_dump_seqnum.toNat ∨ i' = i := by
      intro i' hlast' hlt'
      rcases Nat.lt_succ_iff_lt_or_eq.1 hlt' with hlt' | heq
      · exact .inl (hr.le i' hlast' hlt')
      · by_contra! hne
        rcases Nat.lt_or_gt_of_ne hne.2 with hless | hgreater
        · exact mod_ne hless (lt_of_lt_of_le hlast.1 (le_trans (Nat.le_add_right ..) hlast'.2)) heq
        · exact mod_ne hgreater (lt_of_lt_of_le hlast'.1 (le_trans (Nat.le_add_right ..) hlast.2)) heq.symm
    rw [scanSector, h.readHeader_last hlast]
    dsimp only
    split_ifs with hmax
    · have hmax' := UInt32.lt_iff_toNat_lt.1 hmax
      refine ⟨fun i' hlast' hlt' => ?_, .inl ⟨i, hlast, rfl, rfl⟩, by simpa using hnext⟩
      rw [hi] at hmax' ⊢
      rcases hle i' hlast' hlt' with hle' | rfl
      · exact le_trans hle' hmax'.le
      · exact le_rfl
    · rw [gt_iff_lt, UInt32.lt_iff_toNat_lt, hi, Nat.not_lt] at hmax
      refine ⟨fun i' hlast' hlt' => ?_, hr.max, by simpa using hnext⟩
      rcases hle i' hlast' hlt' with hle' | rfl
      · exact hle'
      · exact hmax

theorem scanned_foldl (h : LogArea count flash blocks spare) (hn : blocks.length ≤ UInt32.size) {k : Nat}
    (hk : k ≤ count) :
    Scanned count spare blocks.length k ((List.range k).foldl (scanSector flash) ⟨0, 0, false⟩) := by
  induction k with
  | zero => exact ⟨fun i _ hlt => absurd hlt (Nat.not_lt_zero _), .inr ⟨rfl, rfl⟩, by simp⟩
  | succ k ih =>
    rw [List.range_succ, List.foldl_append, List.foldl_cons, List.foldl_nil]
    exact scanned_step h hn hk (ih (by omega))

/-- The dump goes on with the next number, in the next sector. -/
theorem getSeqnum_eq (h : LogArea count flash blocks spare) (hspare : spare < count)
    (hn : blocks.length ≤ UInt32.size) :
    getSeqnum flash count = (UInt32.ofNat blocks.length, blocks.length % count) := by
  have hcount : 0 < count := by omega
  have hr := scanned_foldl h hn le_rfl
  rw [getSeqnum]
  generalize (List.range count).foldl (scanSector flash) ⟨0, 0, false⟩ = r at hr
  rcases Nat.eq_zero_or_pos blocks.length with hzero | hpos
  · have hnot : ¬ r.is_existed = true := by
      rw [hr.existed]
      rintro ⟨i, hlast, -⟩
      have := hlast.1
      omega
    rw [if_neg hnot, hzero, Nat.zero_mod]
    rfl
  · obtain ⟨m, hm⟩ : ∃ m, blocks.length = m + 1 := ⟨blocks.length - 1, by omega⟩
    have hlast : Last count spare blocks.length m := ⟨by omega, by omega⟩
    have hlt := Nat.mod_lt m hcount
    have hge := hr.le m hlast hlt
    have hmax : r.max_dump_seqnum = UInt32.ofNat m ∧ r.max_sector_seqnum = m % count := by
      rcases hr.max with ⟨i, hi, hseqnum, hsector⟩ | ⟨hseqnum, hsector⟩
      · rw [hseqnum, toNat_ofNat hi.1 hn] at hge
        obtain rfl : i = m := by
          have := hi.1
          omega
        exact ⟨hseqnum, hsector⟩
      · rw [hseqnum] at hge
        obtain rfl : m = 0 := Nat.le_zero.1 hge
        exact ⟨hseqnum, by rw [hsector, Nat.zero_mod]⟩
    rw [if_pos (hr.existed.2 ⟨m, hlast, hlt⟩), hmax.1, hmax.2, succ_mod_eq m hcount, hm]
    refine Prod.ext ?_ rfl
    apply UInt32.toNat_inj.1
    simp

end LogDump
