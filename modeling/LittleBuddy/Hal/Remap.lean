import LittleBuddy.Lib.Tiles
/-!
# Remapping a part of the flash

`hal_norflash_enable_remap` of `platform/hal/hal_norflash.c`, as it is for
`CHIP_BEST2300P`, over `norflaship_config_remap_section` of
`hal_norflaship_v2.c`. The lower half of the flash, from an address up to
`offset`, is served from the upper half, by regions that the flash controller
wants to be powers of two long.

The regions are cut off from the upper end down, and served from `offset` up.
-/
open Tiles

namespace Hal.Remap

/-- `HAL_NORFLASH_RET_T`, as far as it is returned here. -/
inductive Ret where
  | ok | badOp | badAddr | badLen | notOpened
  deriving DecidableEq

/-- `NORFLASHIP_REMAP_NUM`, `REMAP_SECTOR_SIZE`, and the range of
`HAL_NORFLASH_ADDR_MASK`. -/
abbrev remapNum : Nat := 4
abbrev remapSectorSize : Nat := 0x1000
abbrev addrRange : Nat := 2 ^ 26

/-- The registers of one region: `REG_070`, `REG_080`, `REG_090`, and its parts of
`REG_0A0` and `REG_0B0`. -/
structure RemapReg where
  start : Nat
  last : Nat
  target : Nat
  lenWidth : Nat
  remapEn : Bool
  deriving DecidableEq

/-- A region that is served from elsewhere. -/
structure Region where
  addr : Nat
  len : Nat
  newAddr : Nat
  deriving DecidableEq

/-- What its registers hold. -/
def Region.reg (r : Region) : RemapReg := ⟨r.addr, (r.addr + r.len - 1) % 2 ^ 32, r.newAddr, r.len.log2 - 9, true⟩

/-- `norflaship_config_remap_section`, with its return value. -/
def configRemapSection (id : Nat) (r : Region) (regs : Nat → RemapReg) : Nat × (Nat → RemapReg) :=
  if id ≥ 4 then (1, regs)
  else if r.len = 0 then (0, Function.update regs id { regs id with remapEn := false })
  else if r.addr % remapSectorSize ≠ 0 then (2, regs)
  else if r.newAddr % remapSectorSize ≠ 0 then (3, regs)
  else if r.len < remapSectorSize then (4, regs)
  else if r.len &&& (r.len - 1) ≠ 0 then (5, regs)
  else (0, Function.update regs id r.reg)

/-- The variables of the loop, the registers, and the regions that were programmed. -/
structure RemapLoop where
  remapId : Nat
  remapEnd : Nat
  remapLen : Nat
  regs : Nat → RemapReg
  programmed : List Region

/-- Subtraction of `uint32_t`s. -/
def sub32 (a b : Nat) : Nat := (a + 2 ^ 32 - b) % 2 ^ 32

theorem sub32_of_le {a b : Nat} (h : b ≤ a) (ha : a < 2 ^ 32) : sub32 a b = a - b := by
  unfold sub32
  omega

/-- The loop of `hal_norflash_enable_remap`, for `left` more regions at most; the
first component says whether none was refused. `1 << (31 - __CLZ(len))` is the
highest bit. -/
def remapLoop (flashSize : Nat) : Nat → RemapLoop → Bool × RemapLoop
  | 0, s => (true, s)
  | left + 1, s =>
    if s.remapLen = 0 then (true, s)
    else
      let regionLen := 2 ^ s.remapLen.log2
      let region : Region := ⟨sub32 s.remapEnd regionLen, regionLen, sub32 flashSize s.remapEnd⟩
      let (ret, regs) := configRemapSection s.remapId region s.regs
      if ret ≠ 0 then (false, { s with regs := regs })
      else remapLoop flashSize left
        ⟨s.remapId + 1, sub32 s.remapEnd regionLen, sub32 s.remapLen regionLen, regs, s.programmed ++ [region]⟩

/-- What a call returns and leaves; `glbRemapEn` is whether it turned remapping on. -/
structure Remapped where
  ret : Ret
  regs : Nat → RemapReg
  glbRemapEn : Bool
  programmed : List Region

/-- `hal_norflash_enable_remap`, where `total_size` is that of `norflash_ctx[id]`.
A `none` is a remainder of a division by zero. -/
def enableRemap (opened : Bool) (total_size FLASH_SIZE addr len offset : UInt32) (regs : Nat → RemapReg) :
    Option Remapped :=
  if opened = false then some ⟨.notOpened, regs, false, []⟩
  else
    let flashSize := min total_size.toNat FLASH_SIZE.toNat
    let remapFrom := addr.toNat % addrRange
    if offset.toNat &&& (offset.toNat - 1) ≠ 0 then some ⟨.badAddr, regs, false, []⟩
    else if offset.toNat > flashSize / 2 then some ⟨.badAddr, regs, false, []⟩
    else
      let flashSize := offset.toNat * 2 % 2 ^ 32
      let unit := flashSize / 2 ^ (remapNum + 1)
      if remapFrom < unit then some ⟨.badAddr, regs, false, []⟩
      else if unit = 0 then none
      else if remapFrom % unit ≠ 0 then some ⟨.badAddr, regs, false, []⟩
      else if (remapFrom + len.toNat) % 2 ^ 32 > flashSize / 2 then some ⟨.badLen, regs, false, []⟩
      else
        let remapEnd := flashSize / 2
        match remapLoop flashSize remapNum ⟨0, remapEnd, sub32 remapEnd remapFrom, regs, []⟩ with
        | (false, s) => some ⟨.badOp, s.regs, false, s.programmed⟩
        | (true, s) =>
          if s.remapLen ≠ 0 then some ⟨.badLen, s.regs, false, s.programmed⟩
          else some ⟨.ok, s.regs, true, s.programmed⟩

/-! ## What the loop programs -/

/-- The registers hold the regions, from the first one on, and else what they held. -/
def Holds (regs₀ regs : Nat → RemapReg) (regions : List Region) : Prop :=
  ∀ i, regs i = ((regions[i]?).map Region.reg).getD (regs₀ i)

/-- The regions from `a` to `b`, the last one first, and where they are served
from: one behind the other, from the middle of the flash. -/
structure Reversed (flashSize a b c d : Nat) (regions : List Region) : Prop where
  tiles : Down Region.addr Region.len a b regions
  targets : Up Region.newAddr Region.len d c regions
  mirrored : ∀ r ∈ regions, r.newAddr + (r.addr + r.len) = flashSize

variable {flashSize : Nat} {s : RemapLoop} {left k : Nat} {regs₀ regs : Nat → RemapReg} {regions : List Region} {r : Region}

theorem two_pow_and_sub_one (t : Nat) : 2 ^ t &&& (2 ^ t - 1) = 0 := by
  rw [Nat.and_two_pow_sub_one_eq_mod, Nat.mod_self]

/-- A region of whole sectors is programmed. -/
theorem configRemapSection_ok (r : Region) (regs : Nat → RemapReg) {id t : Nat} (hid : id < 4) (ht : r.len = 2 ^ t)
    (hlen : remapSectorSize ≤ r.len) (haddr : remapSectorSize ∣ r.addr) (hnew : remapSectorSize ∣ r.newAddr) :
    configRemapSection id r regs = (0, Function.update regs id r.reg) := by
  have hpos := Nat.two_pow_pos t
  have hand : ¬ r.len &&& (r.len - 1) ≠ 0 := by
    rw [ht]
    exact not_not_intro (two_pow_and_sub_one t)
  unfold configRemapSection
  rw [if_neg (by omega), if_neg (by omega), if_neg (by omega), if_neg (by omega), if_neg (by omega), if_neg hand]

/-- A smaller one is refused. -/
theorem configRemapSection_small {id : Nat} (hpos : 0 < r.len) (hlen : r.len < remapSectorSize) :
    (configRemapSection id r regs).1 ≠ 0 := by
  unfold configRemapSection
  split_ifs <;> omega

theorem Holds.snoc (h : Holds regs₀ regs regions) (r : Region) :
    Holds regs₀ (Function.update regs regions.length r.reg) (regions ++ [r]) := by
  intro i
  by_cases hi : i = regions.length
  · subst hi
    simp
  · rw [Function.update_of_ne hi, h i]
    rcases Nat.lt_or_gt_of_ne hi with hlt | hgt
    · rw [List.getElem?_append_left hlt]
    · rw [List.getElem?_eq_none (by omega), List.getElem?_eq_none (by simp; omega)]

/-- The loop before a step: what is left lies from `a` to `remapEnd`, in units of
`2 ^ j` with `left` bits at most, and `remapEnd` is aligned to its highest bit. -/
structure Cut (regs₀ : Nat → RemapReg) (k j a left : Nat) (s : RemapLoop) : Prop where
  rest : a + s.remapLen = s.remapEnd
  inLower : s.remapEnd ≤ 2 ^ k
  aligned : s.remapLen ≠ 0 → 2 ^ s.remapLen.log2 ∣ s.remapEnd
  units : 2 ^ j ∣ s.remapLen
  room : s.remapLen < 2 ^ (j + left)
  index : s.remapId = s.programmed.length ∧ s.remapId + left = remapNum
  holds : Holds regs₀ s.regs s.programmed

variable {j a : Nat}

/-- With no region left nothing is left. -/
theorem Cut.done (h : Cut regs₀ k j a 0 s) : s.remapLen = 0 := by
  by_contra hne
  have hle := Nat.le_of_dvd (Nat.pos_of_ne_zero hne) h.units
  have hroom := h.room
  rw [Nat.add_zero] at hroom
  omega

/-- Nothing wraps. -/
theorem Cut.subtract (h : Cut regs₀ k j a left s) (hk : 2 * 2 ^ k < 2 ^ 32) (hne : s.remapLen ≠ 0) :
    sub32 s.remapEnd (2 ^ s.remapLen.log2) = s.remapEnd - 2 ^ s.remapLen.log2 ∧
      sub32 s.remapLen (2 ^ s.remapLen.log2) = s.remapLen - 2 ^ s.remapLen.log2 ∧
      sub32 (2 * 2 ^ k) s.remapEnd = 2 * 2 ^ k - s.remapEnd := by
  have hle := bit_le hne
  have hrest := h.rest
  have hlower := h.inLower
  refine ⟨sub32_of_le ?_ ?_, sub32_of_le hle ?_, sub32_of_le ?_ hk⟩
  all_goals omega

/-- A step keeps it. -/
theorem Cut.next (h : Cut regs₀ k j a (left + 1) s) (hne : s.remapLen ≠ 0) (r : Region) :
    Cut regs₀ k j a left ⟨s.remapId + 1, s.remapEnd - 2 ^ s.remapLen.log2, s.remapLen - 2 ^ s.remapLen.log2,
      Function.update s.regs s.remapId r.reg, s.programmed ++ [r]⟩ where
  rest := by
    have hle := bit_le hne
    have hrest := h.rest
    show a + (s.remapLen - 2 ^ s.remapLen.log2) = s.remapEnd - 2 ^ s.remapLen.log2
    omega
  inLower := Nat.le_trans (Nat.sub_le _ _) h.inLower
  aligned := fun hnext => Nat.dvd_trans (next_bit_dvd hnext) (Nat.dvd_sub (h.aligned hne) (Nat.dvd_refl _))
  units := dvd_rest hne h.units
  room := rest_lt hne h.room
  index := by
    obtain ⟨hid, hleft⟩ := h.index
    simp only [List.length_append, List.length_singleton]
    omega
  holds := by
    rw [h.index.1]
    exact h.holds.snoc r

/-- What is left in whole sectors is programmed to its last bit. -/
theorem remapLoop_ok (h : Cut regs₀ k j a left s) (hk : 2 * 2 ^ k < 2 ^ 32) (hsector : remapSectorSize ∣ s.remapLen) :
    ∃ s' regions, remapLoop (2 * 2 ^ k) left s = (true, s') ∧ s'.remapLen = 0 ∧ s'.programmed = s.programmed ++ regions ∧
      Reversed (2 * 2 ^ k) a s.remapEnd (2 * 2 ^ k - s.remapEnd) (2 * 2 ^ k - a) regions ∧
      Holds regs₀ s'.regs s'.programmed := by
  induction left generalizing s with
  | zero =>
    have hdone := h.done
    have hrest := h.rest
    rw [hdone, Nat.add_zero] at hrest
    refine ⟨s, [], rfl, hdone, (List.append_nil _).symm, ⟨hrest, ?_, by simp⟩, h.holds⟩
    rw [← hrest]
    rfl
  | succ left ih =>
    by_cases hzero : s.remapLen = 0
    · have hrest := h.rest
      rw [hzero, Nat.add_zero] at hrest
      refine ⟨s, [], by simp [remapLoop, hzero], hzero, (List.append_nil _).symm, ⟨hrest, ?_, by simp⟩, h.holds⟩
      rw [← hrest]
      rfl
    · -- the highest bit is a multiple of a sector, and everything is a multiple of it
      have hbit : remapSectorSize ∣ 2 ^ s.remapLen.log2 := dvd_bit (j := 12) hzero hsector
      have hle := bit_le hzero
      have hrest := h.rest
      have hlower := h.inLower
      have hindex : s.remapId + (left + 1) = 4 := h.index.2
      have hend : remapSectorSize ∣ s.remapEnd := Nat.dvd_trans hbit (h.aligned hzero)
      have hhalf : 2 ^ s.remapLen.log2 ∣ 2 ^ k :=
        Nat.pow_dvd_pow 2 ((Nat.pow_le_pow_iff_right (by decide)).1 (by omega : 2 ^ s.remapLen.log2 ≤ 2 ^ k))
      obtain ⟨hsubEnd, hsubLen, hsubSize⟩ := h.subtract hk hzero
      have hlog : remapSectorSize ≤ 2 ^ s.remapLen.log2 := Nat.le_of_dvd (Nat.two_pow_pos _) hbit
      have hconfig := configRemapSection_ok ⟨s.remapEnd - 2 ^ s.remapLen.log2, 2 ^ s.remapLen.log2,
        2 * 2 ^ k - s.remapEnd⟩ s.regs (by omega : s.remapId < 4) rfl hlog (Nat.dvd_sub hend hbit)
        (Nat.dvd_sub (Nat.dvd_mul_left_of_dvd (Nat.dvd_trans hbit hhalf) 2) hend)
      obtain ⟨s', regions, hloop, hdone, hprog, ⟨htiles, htargets, hmirrored⟩, hholds⟩ :=
        ih (h.next hzero _) (dvd_rest (j := 12) hzero hsector)
      refine ⟨s', ⟨s.remapEnd - 2 ^ s.remapLen.log2, 2 ^ s.remapLen.log2, 2 * 2 ^ k - s.remapEnd⟩ :: regions, ?_, hdone, ?_,
        ⟨⟨?_, htiles⟩, ⟨rfl, ?_⟩, ?_⟩, hholds⟩
      · simp only [remapLoop, if_neg hzero, hsubEnd, hsubLen, hsubSize, hconfig]
        exact hloop
      · rw [hprog, List.append_assoc]
        rfl
      · simp only
        omega
      · have hnext : 2 * 2 ^ k - s.remapEnd + 2 ^ s.remapLen.log2 = 2 * 2 ^ k - (s.remapEnd - 2 ^ s.remapLen.log2) := by
          omega
        simp only [hnext]
        exact htargets
      · intro r hr
        rcases List.mem_cons.1 hr with rfl | hr
        · simp only
          omega
        · exact hmirrored r hr

/-- A region that is accepted has whole sectors, and is programmed. -/
theorem accepted {id t : Nat} (ht : r.len = 2 ^ t) (h : (configRemapSection id r regs).1 = 0) :
    remapSectorSize ∣ r.len ∧ (configRemapSection id r regs).2 = Function.update regs id r.reg := by
  have hpos := Nat.two_pow_pos t
  constructor
  · have hle : 2 ^ 12 ≤ 2 ^ t := by
      rw [← ht]
      by_contra hlt
      exact configRemapSection_small (by omega) (Nat.lt_of_not_le hlt) h
    rw [ht]
    exact Nat.pow_dvd_pow 2 ((Nat.pow_le_pow_iff_right (by decide : 1 < 2)).1 hle)
  · unfold configRemapSection at h ⊢
    split_ifs at h ⊢
    · omega
    · rfl

/-- Else a region is refused. -/
theorem remapLoop_refused (flashSize : Nat) (h : Cut regs₀ k j a left s) (hk : 2 * 2 ^ k < 2 ^ 32)
    (hsector : ¬ remapSectorSize ∣ s.remapLen) : (remapLoop flashSize left s).1 = false := by
  induction left generalizing s with
  | zero => exact absurd (h.done ▸ Nat.dvd_zero _) hsector
  | succ left ih =>
    have hne : s.remapLen ≠ 0 := by
      intro hzero
      exact hsector (hzero ▸ Nat.dvd_zero _)
    simp only [remapLoop, if_neg hne]
    split
    · rfl
    · rename_i hret
      -- the region was accepted, so it has whole sectors, and the rest has not
      obtain ⟨hbit, hregs⟩ := accepted rfl (not_not.1 hret)
      obtain ⟨hsubEnd, hsubLen, -⟩ := h.subtract hk hne
      rw [hregs, hsubLen]
      simp only [hsubEnd]
      refine ih (h.next hne _) fun hrest => hsector ?_
      have hsum := Nat.dvd_add hrest hbit
      rwa [Nat.sub_add_cancel (bit_le hne)] at hsum

/-- Whatever happens, there are `left` more regions at most, powers of two long. -/
theorem remapLoop_regions (flashSize : Nat) (left : Nat) (s : RemapLoop) :
    ∃ regions, (remapLoop flashSize left s).2.programmed = s.programmed ++ regions ∧ regions.length ≤ left ∧
      ∀ r ∈ regions, ∃ t, r.len = 2 ^ t := by
  induction left generalizing s with
  | zero => exact ⟨[], (List.append_nil _).symm, Nat.le_refl 0, by simp⟩
  | succ left ih =>
    simp only [remapLoop]
    split
    · exact ⟨[], (List.append_nil _).symm, Nat.zero_le _, by simp⟩
    · split
      · exact ⟨[], (List.append_nil _).symm, Nat.zero_le _, by simp⟩
      · obtain ⟨regions, hprog, hlen, hpow⟩ := ih _
        refine ⟨⟨sub32 s.remapEnd (2 ^ s.remapLen.log2), 2 ^ s.remapLen.log2, sub32 flashSize s.remapEnd⟩ :: regions, ?_,
          Nat.succ_le_succ hlen, ?_⟩
        · rw [hprog, List.append_assoc]
          rfl
        · intro r hr
          rcases List.mem_cons.1 hr with rfl | hr
          · exact ⟨_, rfl⟩
          · exact hpow r hr

/-! ## What a call does -/

/-- The arguments pass the checks. -/
structure Admitted (opened : Bool) (total_size FLASH_SIZE addr len offset : UInt32) : Prop where
  opened : opened = true
  power : offset.toNat &&& (offset.toNat - 1) = 0
  half : offset.toNat ≤ min total_size.toNat FLASH_SIZE.toNat / 2
  unit : offset.toNat * 2 % 2 ^ 32 / 2 ^ (remapNum + 1) ≤ addr.toNat % addrRange
  aligned : addr.toNat % addrRange % (offset.toNat * 2 % 2 ^ 32 / 2 ^ (remapNum + 1)) = 0
  fits : (addr.toNat % addrRange + len.toNat) % 2 ^ 32 ≤ offset.toNat * 2 % 2 ^ 32 / 2

/-- The programmed regions are a partition of the numbers from `a` to `offset`, and
so are their targets of as many numbers from `offset` on, in reverse order. -/
structure Partitions (regs₀ : Nat → RemapReg) (a offset : Nat) (r : Remapped) : Prop where
  covers : ∀ x, (a ≤ x ∧ x < offset) ↔ ∃ p ∈ r.programmed, p.addr ≤ x ∧ x < p.addr + p.len
  disjoint : r.programmed.Pairwise fun p q => q.addr + q.len ≤ p.addr
  targets : ∀ y, (offset ≤ y ∧ y < 2 * offset - a) ↔ ∃ p ∈ r.programmed, p.newAddr ≤ y ∧ y < p.newAddr + p.len
  targetsDisjoint : r.programmed.Pairwise fun p q => p.newAddr + p.len ≤ q.newAddr
  mirrored : ∀ p ∈ r.programmed, p.newAddr + (p.addr + p.len) = 2 * offset
  registers : Holds regs₀ r.regs r.programmed
  enabled : r.glbRemapEn = true

variable {opened : Bool} {total_size FLASH_SIZE addr len offset : UInt32}

/-- A checked offset of at least 16 is a power of two whose double is no overflow. -/
theorem Admitted.offset_eq (h : Admitted opened total_size FLASH_SIZE addr len offset) (h16 : 16 ≤ offset.toNat) :
    ∃ k, offset.toNat = 2 ^ (k + 4) ∧ 2 * 2 ^ (k + 4) < 2 ^ 32 := by
  obtain ⟨t, ht⟩ := (Nat.and_sub_one_eq_zero_iff_isPowerOfTwo (by omega)).1 h.power
  have h4 : 4 ≤ t := by
    rw [ht] at h16
    exact (Nat.pow_le_pow_iff_right (by decide : 1 < 2)).1 (h16 : 2 ^ 4 ≤ 2 ^ t)
  obtain ⟨k, rfl⟩ := Nat.exists_eq_add_of_le' h4
  have hhalf := h.half
  have hsize := total_size.toNat_lt
  refine ⟨k, ht, ?_⟩
  rw [← ht]
  omega

/-- The loop begins with a cut. -/
theorem Admitted.cut (h : Admitted opened total_size FLASH_SIZE addr len offset) {k : Nat}
    (hk : offset.toNat = 2 ^ (k + 4)) (hsize : 2 * 2 ^ (k + 4) < 2 ^ 32)
    (hlen : addr.toNat % addrRange + len.toNat < 2 ^ 32) (regs : Nat → RemapReg) :
    addr.toNat % addrRange ≤ 2 ^ (k + 4) ∧
      Cut regs (k + 4) k (addr.toNat % addrRange) remapNum ⟨0, 2 ^ (k + 4), 2 ^ (k + 4) - addr.toNat % addrRange, regs, []⟩ := by
  have hfits := h.fits
  have hunit := h.unit
  have haligned := h.aligned
  have hunits : offset.toNat * 2 % 2 ^ 32 / 2 ^ (remapNum + 1) = 2 ^ k := by
    rw [hk, Nat.pow_add]
    rw [Nat.pow_add] at hsize
    show 2 ^ k * 2 ^ 4 * 2 % 2 ^ 32 / 32 = 2 ^ k
    omega
  rw [hunits] at hunit haligned
  rw [hk] at hfits
  have hpos := Nat.two_pow_pos k
  have hle : addr.toNat % addrRange ≤ 2 ^ (k + 4) := by omega
  refine ⟨hle, ?_, Nat.le_refl _, ?_, ?_, ?_, ⟨rfl, rfl⟩, fun i => rfl⟩
  · exact Nat.add_sub_cancel' hle
  · intro hne
    exact Nat.pow_dvd_pow 2 ((Nat.pow_le_pow_iff_right (by decide : 1 < 2)).1
      (Nat.le_trans (bit_le hne) (Nat.sub_le _ _)))
  · exact Nat.dvd_sub (Nat.pow_dvd_pow 2 (Nat.le_add_right k 4)) (Nat.dvd_of_mod_eq_zero haligned)
  · show 2 ^ (k + 4) - addr.toNat % addrRange < 2 ^ (k + 4)
    have := Nat.two_pow_pos (k + 4)
    omega

/-- Behind the checks comes the loop, -/
theorem enableRemap_admitted (h : Admitted opened total_size FLASH_SIZE addr len offset) {k : Nat}
    (hk : offset.toNat = 2 ^ (k + 4)) (hsize : 2 * 2 ^ (k + 4) < 2 ^ 32)
    (hle : addr.toNat % addrRange ≤ 2 ^ (k + 4)) (regs : Nat → RemapReg) :
    enableRemap opened total_size FLASH_SIZE addr len offset regs =
      match remapLoop (2 * 2 ^ (k + 4)) remapNum ⟨0, 2 ^ (k + 4), 2 ^ (k + 4) - addr.toNat % addrRange, regs, []⟩ with
      | (false, s) => some ⟨.badOp, s.regs, false, s.programmed⟩
      | (true, s) =>
        if s.remapLen ≠ 0 then some ⟨.badLen, s.regs, false, s.programmed⟩
        else some ⟨.ok, s.regs, true, s.programmed⟩ := by
  obtain ⟨hopened, hpower, hhalf, hunit, haligned, hfits⟩ := h
  have hdouble : 2 ^ (k + 4) * 2 % 2 ^ 32 = 2 * 2 ^ (k + 4) := by omega
  have hmid : 2 * 2 ^ (k + 4) / 2 = 2 ^ (k + 4) := by omega
  have hpos : 2 * 2 ^ (k + 4) / 2 ^ (remapNum + 1) ≠ 0 := by
    rw [Nat.pow_add]
    have := Nat.two_pow_pos k
    show 2 * (2 ^ k * 2 ^ 4) / 32 ≠ 0
    omega
  rw [hk] at hpower hhalf hunit haligned hfits
  rw [hdouble] at hunit haligned hfits
  have hsub := sub32_of_le hle (by omega)
  simp only [enableRemap, hopened, hk, hdouble, hmid, hsub]
  rw [if_neg (by decide), if_neg (not_not_intro hpower), if_neg (by omega), if_neg (by omega), if_neg hpos,
    if_neg (not_not_intro haligned), if_neg (by omega)]

/-- and without them nothing is programmed. -/
theorem enableRemap_refused (h : ¬ Admitted opened total_size FLASH_SIZE addr len offset) (h16 : 16 ≤ offset.toNat)
    (regs : Nat → RemapReg) :
    ∃ ret, ret ≠ .ok ∧ enableRemap opened total_size FLASH_SIZE addr len offset regs = some ⟨ret, regs, false, []⟩ := by
  simp only [enableRemap]
  split
  · exact ⟨.notOpened, by decide, rfl⟩
  rename_i hopened
  split
  · exact ⟨.badAddr, by decide, rfl⟩
  rename_i hpower
  split
  · exact ⟨.badAddr, by decide, rfl⟩
  rename_i hhalf
  split
  · exact ⟨.badAddr, by decide, rfl⟩
  rename_i hunit
  rw [if_neg]
  · split
    · exact ⟨.badAddr, by decide, rfl⟩
    rename_i haligned
    split
    · exact ⟨.badLen, by decide, rfl⟩
    rename_i hfits
    exact absurd ⟨by simpa using hopened, not_not.1 hpower, Nat.le_of_not_lt hhalf, Nat.le_of_not_lt hunit,
      not_not.1 haligned, Nat.le_of_not_lt hfits⟩ h
  · have hsize := total_size.toNat_lt
    show offset.toNat * 2 % 2 ^ 32 / 32 ≠ 0
    omega

/-- For arguments whose sum does not overflow and an offset of at least 16 there is
no division by zero, and there are at most four regions, powers of two long. The
checked arguments are remapped exactly if they leave whole sectors below `offset`;
then the regions are a partition from the address up to `offset`, whatever the
length, and the one that ends at `e` is served from `2 * offset - e`. -/
theorem remap_partitions (opened : Bool) (total_size FLASH_SIZE addr len offset : UInt32) (regs : Nat → RemapReg)
    (h16 : 16 ≤ offset.toNat) (hlen : addr.toNat % addrRange + len.toNat < 2 ^ 32) :
    ∃ r, enableRemap opened total_size FLASH_SIZE addr len offset regs = some r ∧
      r.programmed.length ≤ remapNum ∧ (∀ p ∈ r.programmed, ∃ t, p.len = 2 ^ t) ∧
      (r.ret = .ok ↔ Admitted opened total_size FLASH_SIZE addr len offset ∧
        remapSectorSize ∣ offset.toNat - addr.toNat % addrRange) ∧
      (r.ret = .ok → Partitions regs (addr.toNat % addrRange) offset.toNat r) := by
  by_cases h : Admitted opened total_size FLASH_SIZE addr len offset
  · obtain ⟨k, hk, hsize⟩ := h.offset_eq h16
    obtain ⟨hle, hcut⟩ := h.cut hk hsize hlen regs
    rw [enableRemap_admitted h hk hsize hle, hk]
    by_cases hsector : remapSectorSize ∣ 2 ^ (k + 4) - addr.toNat % addrRange
    · obtain ⟨s, regions, hloop, hdone, hprog, ⟨htiles, htargets, hmirrored⟩, hholds⟩ := remapLoop_ok hcut hsize hsector
      obtain ⟨regions', hprog', hcount, hpow⟩ := remapLoop_regions (2 * 2 ^ (k + 4)) remapNum
        ⟨0, 2 ^ (k + 4), 2 ^ (k + 4) - addr.toNat % addrRange, regs, []⟩
      rw [hloop] at hprog' ⊢
      simp only [List.nil_append] at hprog hprog'
      obtain rfl : regions' = regions := hprog'.symm.trans hprog
      have hmiddle : 2 * 2 ^ (k + 4) - 2 ^ (k + 4) = 2 ^ (k + 4) := by omega
      simp only [hmiddle] at htargets
      refine ⟨_, if_neg (not_not_intro hdone), hprog ▸ hcount, hprog ▸ hpow, iff_of_true rfl ⟨h, hsector⟩, fun _ => ?_⟩
      exact ⟨fun x => hprog ▸ htiles.covers, hprog ▸ htiles.disjoint, fun y => hprog ▸ htargets.covers,
        hprog ▸ htargets.disjoint, hprog ▸ hmirrored, hholds, rfl⟩
    · have hrefused := remapLoop_refused (2 * 2 ^ (k + 4)) hcut hsize hsector
      obtain ⟨regions, hprog, hcount, hpow⟩ := remapLoop_regions (2 * 2 ^ (k + 4)) remapNum
        ⟨0, 2 ^ (k + 4), 2 ^ (k + 4) - addr.toNat % addrRange, regs, []⟩
      rw [List.nil_append] at hprog
      split
      · rename_i s hloop
        rw [hloop] at hprog
        simp only at hprog
        exact ⟨_, rfl, hprog ▸ hcount, hprog ▸ hpow, iff_of_false (by simp) fun hc => hsector hc.2, by rintro ⟨⟩⟩
      · rename_i s hloop
        rw [hloop] at hrefused
        cases hrefused
  · obtain ⟨ret, hret, hr⟩ := enableRemap_refused h h16 regs
    exact ⟨_, hr, Nat.zero_le _, by simp, iff_of_false hret fun hc => h hc.1, fun hc => absurd hc hret⟩

/-- An image from `0x18000` up to the middle of a flash of 1 MB. -/
theorem remap_partitions_image :
    ∃ r, enableRemap true 0x100000 0x400000 0x18000 0x68000 0x80000 (fun _ => ⟨0, 0, 0, 0, false⟩) = some r ∧
      Partitions (fun _ => ⟨0, 0, 0, 0, false⟩) 0x18000 0x80000 r := by
  obtain ⟨r, hr, -, -, hok, hpart⟩ := remap_partitions true 0x100000 0x400000 0x18000 0x68000 0x80000
    (fun _ => ⟨0, 0, 0, 0, false⟩) (by decide) (by decide)
  have ha : (0x18000 : UInt32).toNat % addrRange = 0x18000 := by decide
  have ho : (0x80000 : UInt32).toNat = 0x80000 := by decide
  rw [ha, ho] at hpart
  exact ⟨r, hr, hpart (hok.2 ⟨⟨rfl, by decide, by decide, by decide, by decide, by decide⟩, by decide⟩)⟩

/-- The regions are a partition of the `len` numbers from `a` on, each served from
the number that is `offset` behind it. -/
structure ByOffset (a len offset : Nat) (r : Remapped) : Prop where
  covers : ∀ x, (a ≤ x ∧ x < a + len) ↔ ∃ p ∈ r.programmed, p.addr ≤ x ∧ x < p.addr + p.len
  disjoint : r.programmed.Pairwise fun p q => q.addr + q.len ≤ p.addr
  served : ∀ p ∈ r.programmed, p.newAddr = p.addr + offset

/-- That image is remapped in three regions, the last one first; and one that ends
before the middle is remapped up to there as well. -/
theorem remapped_in_reverse :
    (∃ r, enableRemap true 0x100000 0x400000 0x18000 0x68000 0x80000 (fun _ => ⟨0, 0, 0, 0, false⟩) = some r ∧
      r.ret = .ok ∧ r.programmed = [⟨0x40000, 0x40000, 0x80000⟩, ⟨0x20000, 0x20000, 0xC0000⟩, ⟨0x18000, 0x8000, 0xE0000⟩] ∧
      ¬ ByOffset 0x18000 0x68000 0x80000 r) ∧
    ∃ r, enableRemap true 0x100000 0x400000 0x18000 0x1000 0x80000 (fun _ => ⟨0, 0, 0, 0, false⟩) = some r ∧
      r.ret = .ok ∧ ∃ p ∈ r.programmed, 0x18000 + 0x1000 < p.addr := by
  constructor
  · have hrun : ((enableRemap true 0x100000 0x400000 0x18000 0x68000 0x80000 fun _ => ⟨0, 0, 0, 0, false⟩).any fun r =>
        decide (r.ret = .ok ∧ r.programmed =
          [⟨0x40000, 0x40000, 0x80000⟩, ⟨0x20000, 0x20000, 0xC0000⟩, ⟨0x18000, 0x8000, 0xE0000⟩])) = true := by
      decide +kernel
    obtain ⟨r, hr, hgood⟩ := (Option.any_eq_true ..).1 hrun
    obtain ⟨hok, hprog⟩ := of_decide_eq_true hgood
    refine ⟨r, hr, hok, hprog, fun h => ?_⟩
    have hserved := h.served ⟨0x40000, 0x40000, 0x80000⟩ (hprog ▸ .head _)
    exact absurd hserved (by decide)
  · have hrun : ((enableRemap true 0x100000 0x400000 0x18000 0x1000 0x80000 fun _ => ⟨0, 0, 0, 0, false⟩).any fun r =>
        decide (r.ret = .ok ∧ ∃ p ∈ r.programmed, 0x18000 + 0x1000 < p.addr)) = true := by
      decide +kernel
    obtain ⟨r, hr, hgood⟩ := (Option.any_eq_true ..).1 hrun
    obtain ⟨hok, hbehind⟩ := of_decide_eq_true hgood
    exact ⟨r, hr, hok, hbehind⟩

end Hal.Remap
