import LittleBuddy.Lib.SectorRing
/-!
# A ring of numbered sectors

The blocks of a ring begin with a header that carries their number, so that the
number of a sector's block can be read from the flash. Sectors without one of
the last blocks have no header.
-/
open Bytes NorMem SectorRing

namespace HeaderRing

/-- Headers of `headerLen` bytes, with a number in them unless they are no header. -/
structure Format where
  headerLen : Nat
  number : List UInt8 → Option UInt32
  erased : number (List.replicate headerLen 0xff) = none

variable {F : Format} {size count spare : Nat} {flash flash' : Mem} {blocks : List (List UInt8)} {b : List UInt8}

/-- The number in the header of the sector `j`. -/
def sectorNumber (F : Format) (size : Nat) (flash : Mem) (j : Nat) : Option UInt32 :=
  F.number (read flash (j * size) F.headerLen)

/-- The block begins with a header with the number `i`. -/
def Tagged (F : Format) (i : Nat) (b : List UInt8) : Prop :=
  F.headerLen ≤ b.length ∧ F.number (b.take F.headerLen) = some (UInt32.ofNat i)

/-- The last blocks are there, and no header where there is none of them. -/
structure Area (F : Format) (size count : Nat) (flash : Mem) (blocks : List (List UInt8)) (spare : Nat) : Prop where
  holds : Holds size count flash blocks spare
  tagged : ∀ i b, blocks[i]? = some b → Tagged F i b
  blank : ∀ j, j < count → Vacant count spare blocks.length j → sectorNumber F size flash j = none

theorem sectorNumber_congr {j : Nat} (hsize : F.headerLen ≤ size)
    (h : ∀ a, InRange (j * size) size a → flash' a = flash a) : sectorNumber F size flash' j = sectorNumber F size flash j := by
  unfold sectorNumber
  rw [read_congr]
  intro a hle hlt
  exact h a ⟨hle, lt_of_lt_of_le hlt (Nat.add_le_add_left hsize _)⟩

theorem sectorNumber_erased {j : Nat} (hsize : F.headerLen ≤ size) (h : ∀ a, InRange (j * size) size a → flash a = 0xff) :
    sectorNumber F size flash j = none := by
  have hread : read flash (j * size) F.headerLen = List.replicate F.headerLen 0xff := by
    refine List.eq_replicate_iff.2 ⟨length_read .., fun x hx => ?_⟩
    obtain ⟨k, hk, rfl⟩ := List.mem_map.1 hx
    have hlt := List.mem_range.1 hk
    exact h _ ⟨Nat.le_add_right .., by omega⟩
  rw [sectorNumber, hread, F.erased]

/-- The sector `j` is not the one of the block `i`. -/
theorem not_inRange_sector {i j a len : Nat} (hj : j < count) (h : j ≠ i % count) (ha : InRange (j * size) size a)
    (hlen : len ≤ size) : ¬ InRange (addr size count i) len a := by
  have hmod : j % count = j := Nat.mod_eq_of_lt hj
  refine not_inRange (i := j) (by rwa [hmod]) ?_ hlen
  rwa [addr, hmod]

/-- An area in which nothing was written. -/
theorem Area.empty (h : ∀ j, j < count → sectorNumber F size flash j = none) : Area F size count flash [] spare where
  holds := ⟨by simp, by simp⟩
  tagged := by simp
  blank j hj _ := h j hj

theorem Area.of_nil {spare' : Nat} (h : Area F size count flash [] spare) : Area F size count flash [] spare' :=
  .empty fun j hj => h.blank j hj fun i hi => absurd hi.1 (Nat.not_lt_zero i)

theorem Area.erase (h : Area F size count flash blocks spare) (hsize : F.headerLen ≤ size) (hspare : spare ≤ 1) :
    Area F size count (erase flash (addr size count blocks.length) size) blocks 1 where
  holds := h.holds.erase hspare
  tagged := h.tagged
  blank j hj hvacant := by
    by_cases heq : j = blocks.length % count
    · subst heq
      exact sectorNumber_erased hsize fun a ha => erase_of ha
    · rw [← h.blank j hj (hvacant.of_erase hspare heq)]
      apply sectorNumber_congr hsize
      intro a ha
      exact erase_other (not_inRange_sector hj heq ha le_rfl)

theorem Area.program (h : Area F size count flash blocks 1) (hsize : F.headerLen ≤ size)
    (herased : ∀ a, InRange (addr size count blocks.length) size a → flash a = 0xff)
    (hb : Tagged F blocks.length b) (hlen : b.length ≤ size) :
    Area F size count (program flash (addr size count blocks.length) b.length (bufferOf b)) (blocks ++ [b]) 0 where
  holds := h.holds.program herased hlen
  tagged i b' hb' := by
    rcases Nat.lt_or_ge i blocks.length with hlt | hge
    · rw [List.getElem?_append_left hlt] at hb'
      exact h.tagged i b' hb'
    · rw [List.getElem?_append_right hge] at hb'
      obtain ⟨hi, rfl⟩ := List.getElem?_eq_some_iff.1 hb'
      rw [List.length_singleton] at hi
      obtain rfl : i = blocks.length := by omega
      simpa using hb
  blank j hj hvacant := by
    rw [List.length_append, List.length_singleton] at hvacant
    obtain ⟨hvacant, hne⟩ := hvacant.of_program (Nat.zero_lt_of_lt hj)
    rw [← h.blank j hj hvacant]
    apply sectorNumber_congr hsize
    intro a ha
    exact program_other (not_inRange_sector hj hne ha hlen)

theorem Area.number_last (h : Area F size count flash blocks spare) {i : Nat} (hi : Last count spare blocks.length i) :
    sectorNumber F size flash (i % count) = some (UInt32.ofNat i) := by
  obtain ⟨b, hget⟩ : ∃ b, blocks[i]? = some b := ⟨_, List.getElem?_eq_getElem hi.1⟩
  obtain ⟨hlen, hnumber⟩ := h.tagged i b hget
  have hread := h.holds.held i b hi hget
  have hsplit := read_add flash (addr size count i) F.headerLen (b.length - F.headerLen)
  rw [Nat.add_sub_cancel' hlen, hread] at hsplit
  rw [hsplit, List.take_left' (length_read ..)] at hnumber
  exact hnumber

/-- A header in the flash is that of one of the last blocks. -/
theorem Area.last_of_number (h : Area F size count flash blocks spare) {j : Nat} (hj : j < count) {v : UInt32}
    (hv : sectorNumber F size flash j = some v) : ∃ i, Last count spare blocks.length i ∧ i % count = j ∧ v = UInt32.ofNat i := by
  have hnot : ¬ Vacant count spare blocks.length j := by
    intro hvacant
    rw [h.blank j hj hvacant] at hv
    cases hv
  unfold Vacant at hnot
  push Not at hnot
  obtain ⟨i, hlast, rfl⟩ := hnot
  rw [h.number_last hlast] at hv
  exact ⟨i, hlast, rfl, (Option.some.inj hv).symm⟩

end HeaderRing
