import LittleBuddy.Lib.Bytes
import LittleBuddy.Lib.NorMem
import Mathlib.Data.Nat.ModEq
/-!
# A ring of flash sectors

Blocks of at most a sector are kept in a NOR flash area of `count` sectors: the
block number `i` is in the sector `i % count`, which is erased before the block
is programmed. The last `count` blocks are there.
-/
open Bytes NorMem

namespace SectorRing

variable {size count i j n : Nat} {flash flash' : Mem} {blocks : List (List UInt8)} {b : List UInt8}

/-- Where the sector of the block `i` begins. -/
def addr (size count i : Nat) : Nat := i % count * size

/-- Of `n` blocks the block `i` is one of the last `count`, and not one of the
oldest `spare` of these. -/
def Last (count spare n i : Nat) : Prop := i < n ∧ n + spare ≤ i + count

/-- The last blocks are in the flash. -/
structure Holds (size count : Nat) (flash : Mem) (blocks : List (List UInt8)) (spare : Nat) : Prop where
  small : ∀ b ∈ blocks, b.length ≤ size
  held : ∀ i b, Last count spare blocks.length i → blocks[i]? = some b → read flash (addr size count i) b.length = b

theorem mod_ne (hi : i < n) (hn : n < i + count) : i % count ≠ n % count := by
  intro h
  have hdvd : count ∣ n - i := (Nat.modEq_iff_dvd' hi.le).1 h
  exact absurd (Nat.le_of_dvd (by omega) hdvd) (by omega)

theorem succ_mod_eq (m : Nat) (hcount : 0 < count) :
    (if m % count + 1 ≥ count then 0 else m % count + 1) = (m + 1) % count := by
  have hlt := Nat.mod_lt m hcount
  rw [← Nat.mod_add_mod m]
  split_ifs with hge
  · rw [show m % count + 1 = count by omega, Nat.mod_self]
  · rw [Nat.mod_eq_of_lt (show m % count + 1 < count by omega)]

/-- The sector of the next block, counted in bytes. -/
theorem addr_succ (hcount : 0 < count) (hsize : 0 < size) (n : Nat) :
    (if addr size count n + size ≥ count * size then 0 else addr size count n + size) = addr size count (n + 1) := by
  have hadd : addr size count n + size = (n % count + 1) * size := (Nat.succ_mul ..).symm
  rw [hadd, addr, ← succ_mod_eq n hcount]
  have hiff : (n % count + 1) * size ≥ count * size ↔ n % count + 1 ≥ count := Nat.mul_le_mul_right_iff hsize
  by_cases hge : n % count + 1 ≥ count
  · rw [if_pos hge, if_pos (hiff.2 hge), Nat.zero_mul]
  · rw [if_neg hge, if_neg (fun h => hge (hiff.1 h))]

/-- Different sectors do not meet. -/
theorem not_inRange (h : i % count ≠ j % count) {a len : Nat} (ha : InRange (addr size count i) size a)
    (hlen : len ≤ size) : ¬ InRange (addr size count j) len a := by
  intro hj
  have hdiv : ∀ k, InRange (addr size count k) size a → k % count = a / size := by
    rintro k ⟨hle, hlt⟩
    unfold addr at hle hlt
    refine (Nat.div_eq_of_lt_le hle ?_).symm
    rwa [Nat.add_mul, Nat.one_mul]
  exact h ((hdiv i ha).trans (hdiv j ⟨hj.1, lt_of_lt_of_le hj.2 (Nat.add_le_add_left hlen _)⟩).symm)

theorem Holds.congr {spare spare' : Nat} (h : Holds size count flash blocks spare) (hle : spare ≤ spare')
    (heq : ∀ i, Last count spare' blocks.length i → ∀ a, InRange (addr size count i) size a → flash' a = flash a) :
    Holds size count flash' blocks spare' where
  small := h.small
  held i b hlast hb := by
    have hsmall := h.small b (List.mem_of_getElem? hb)
    rw [← h.held i b ⟨hlast.1, le_trans (Nat.add_le_add_left hle _) hlast.2⟩ hb]
    simp only [length_read]
    exact read_congr fun a hle hlt => heq i hlast a ⟨hle, lt_of_lt_of_le hlt (Nat.add_le_add_left hsmall _)⟩

/-- The blocks that are left do not share the sector of the next one. -/
theorem Last.mod_ne (h : Last count 1 n i) : i % count ≠ n % count := SectorRing.mod_ne h.1 h.2

/-- The sector of the next block is erased: the oldest block is given up. -/
theorem Holds.erase {spare : Nat} (h : Holds size count flash blocks spare) (hspare : spare ≤ 1) :
    Holds size count (erase flash (addr size count blocks.length) size) blocks 1 := by
  apply h.congr hspare
  intro i hlast a ha
  exact erase_other (not_inRange hlast.mod_ne ha le_rfl)

/-- The next block is programmed into its erased sector. -/
theorem Holds.program (h : Holds size count flash blocks 1)
    (herased : ∀ a, InRange (addr size count blocks.length) size a → flash a = 0xff) (hb : b.length ≤ size) :
    Holds size count (program flash (addr size count blocks.length) b.length (bufferOf b)) (blocks ++ [b]) 0 where
  small b' hb' := by
    rcases List.mem_append.1 hb' with hb' | hb'
    · exact h.small b' hb'
    · rw [List.mem_singleton.1 hb']
      exact hb
  held i b' hlast hb' := by
    rw [List.length_append, List.length_singleton] at hlast
    rcases Nat.lt_succ_iff_lt_or_eq.1 hlast.1 with hi | rfl
    · -- an older block, in another sector
      have hold : Last count 1 blocks.length i := ⟨hi, hlast.2⟩
      rw [List.getElem?_append_left hi] at hb'
      have hsmall := h.small b' (List.mem_of_getElem? hb')
      rw [← h.held i b' hold hb']
      simp only [length_read]
      apply read_congr
      intro a hle hlt
      have ha : InRange (addr size count i) size a := ⟨hle, lt_of_lt_of_le hlt (Nat.add_le_add_left hsmall _)⟩
      exact program_other (not_inRange hold.mod_ne ha hb)
    · obtain rfl : b = b' := by simpa using hb'
      rw [← read_bufferOf_self b, length_read]
      apply List.map_congr_left
      intro k hk
      have hlt := List.mem_range.1 hk
      have hin : InRange (addr size count blocks.length) b.length (addr size count blocks.length + k) := ⟨by omega, by omega⟩
      rw [read_bufferOf_self, program_of hin, herased _ ⟨hin.1, by omega⟩, ff_and, Nat.add_sub_cancel_left, Nat.zero_add]

/-! ## Sectors without a block -/

/-- The sector `j` has none of the last blocks. -/
def Vacant (count spare n j : Nat) : Prop := ∀ i, Last count spare n i → i % count ≠ j

/-- Giving up the oldest block leaves the sector of the next one. -/
theorem Vacant.of_erase {spare : Nat} (h : Vacant count 1 n j) (hspare : spare ≤ 1) (hne : j ≠ n % count) :
    Vacant count spare n j := by
  intro i hlast heq
  by_cases hold : Last count 1 n i
  · exact h i hold heq
  · have hn : n = i + count := by
      unfold Last at hold hlast
      omega
    rw [hn, Nat.add_mod_right] at hne
    exact hne heq.symm

/-- A sector without a block is none that the next block goes to. -/
theorem Vacant.of_program (h : Vacant count 0 (n + 1) j) (hcount : 0 < count) : Vacant count 1 n j ∧ j ≠ n % count :=
  ⟨fun i hlast => h i ⟨Nat.lt_succ_of_lt hlast.1, hlast.2⟩, (h n ⟨Nat.lt_succ_self n, by omega⟩).symm⟩

end SectorRing
