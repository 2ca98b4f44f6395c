import LittleBuddy.Hal.PlainOps
/-!
# Programming the flash

`_write_flash_with_crc_check` and `_erase_flash` of
`services/tota/app_tota_flash_program.cpp`. A range is cut at the ends of
sectors: of the first and the last sector the bytes outside of the range are
read, and programmed again behind the erase.

The address comes from the peer and is not checked. "Just use this function to
write data to flash with proper address", say the comments: what is read is the
flash only in its windows, but the HAL erases at any address, by its low bits.
-/
open NorMem Hal.Norflash

namespace Tota.FlashProgram

/-! ## The code -/

/-- `FLASH_SECTOR_SIZE_IN_BYTES`, and `sector_size`. -/
def sectorSize : UInt32 := 4 * 1024

/-- An address in a window of the flash: `FLASHX_NC_BASE`, `FLASHX_BASE`, `FLASH_NC_BASE` or `FLASH_BASE`. -/
def InFlash (addr : Nat) : Prop := addr / addrRange ∈ [2, 3, 14, 15]

instance (addr : Nat) : Decidable (InFlash addr) := inferInstanceAs (Decidable (_ ∈ _))

/-- The byte that is read at an address: `mem` is everything but the flash. -/
def readByte (mem : Nat → UInt8) (s : Flash) (addr : Nat) : UInt8 :=
  if InFlash addr then s.flash (addr % addrRange) else mem addr

/-- A range, cut at the ends of sectors. -/
structure Split where
  base1 : UInt32
  base2 : UInt32
  pre_bytes : UInt32
  middle_bytes : UInt32
  post_bytes : UInt32

/-- The cut that both functions begin with. -/
def split (startAddr dataLen : UInt32) : Split :=
  let base1 := startAddr - startAddr % sectorSize
  let base2 := startAddr + dataLen - (startAddr + dataLen) % sectorSize
  if startAddr % sectorSize = 0 then
    let middle_bytes := dataLen - dataLen % sectorSize
    ⟨base1, base2, 0, middle_bytes, dataLen - middle_bytes⟩
  else if base1 = base2 then ⟨base1, base2, dataLen, 0, 0⟩
  else
    ⟨base1, base2, sectorSize - startAddr % sectorSize, base2 - base1 - sectorSize, startAddr + dataLen - base2⟩

/-- `middle_start_addr`. -/
def Split.middleStartAddr (c : Split) (startAddr : UInt32) : UInt32 :=
  if c.base1 ≠ startAddr then c.base1 + sectorSize else c.base1

variable (ctx : Ctx) (mem : Nat → UInt8)

/-- `hal_norflash_erase` of a sector. The answer is not looked at. -/
def eraseSector (addr : UInt32) (s : Flash) : Flash := (halNorflashErase ctx addr.toNat sectorSize.toNat s).2

/-- `hal_norflash_write`, as here. -/
def writeBytes (addr : UInt32) (buffer : Nat → UInt8) (len : UInt32) (s : Flash) : Flash :=
  (halNorflashWrite ctx addr.toNat buffer len.toNat s).2

/-- The first sector, if the range begins inside of it. `memset` is a copy of a
constant. -/
def preSector (startAddr : UInt32) (dataBuf : Nat → UInt8) (dataLen : UInt32) (c : Split) (s : Flash) : Flash :=
  if c.pre_bytes ≠ 0 then
    let sector_buffer := fun j => readByte mem s (c.base1.toNat + j)
    let len := if c.base1 = c.base2 then dataLen else sectorSize - (startAddr - c.base1)
    let sector_buffer := memcpy sector_buffer (startAddr - c.base1).toNat dataBuf len.toNat
    writeBytes ctx c.base1 sector_buffer sectorSize (eraseSector ctx c.base1 s)
  else s

/-- The loop over whole sectors, with `n` of them to come. -/
def sectorLoop (body : UInt32 → Flash → Flash) : Nat → UInt32 → Flash → Flash
  | 0, _, s => s
  | n + 1, i, s => sectorLoop body n (i + 1) (body i s)

/-- The whole sectors of a write. -/
def writeMiddle (startAddr : UInt32) (dataBuf : Nat → UInt8) (c : Split) (s : Flash) : Flash :=
  if c.middle_bytes ≠ 0 then
    let middle_start_addr := c.middleStartAddr startAddr
    let buffer_offset := middle_start_addr - startAddr
    sectorLoop (fun i s =>
        writeBytes ctx (middle_start_addr + i * sectorSize)
          (fun j => dataBuf ((buffer_offset + i * sectorSize).toNat + j)) sectorSize
          (eraseSector ctx (middle_start_addr + i * sectorSize) s))
      (c.middle_bytes / sectorSize).toNat 0 s
  else s

/-- The whole sectors of an erase. -/
def eraseMiddle (startAddr : UInt32) (c : Split) (s : Flash) : Flash :=
  if c.middle_bytes ≠ 0 then
    let middle_start_addr := c.middleStartAddr startAddr
    sectorLoop (fun i s => eraseSector ctx (middle_start_addr + i * sectorSize) s)
      (c.middle_bytes / sectorSize).toNat 0 s
  else s

/-- The last sector of a write, if the range ends inside of it. -/
def writePost (startAddr : UInt32) (dataBuf : Nat → UInt8) (c : Split) (s : Flash) : Flash :=
  if c.post_bytes ≠ 0 then
    let exist_bytes := sectorSize - c.post_bytes
    let sector_buffer := fun j => readByte mem s ((c.base2 + c.post_bytes).toNat + j)
    let s := eraseSector ctx c.base2 s
    let s := writeBytes ctx c.base2 (fun j => dataBuf ((c.base2 - startAddr).toNat + j)) c.post_bytes s
    writeBytes ctx (c.base2 + c.post_bytes) sector_buffer exist_bytes s
  else s

/-- The last sector of an erase. -/
def erasePost (c : Split) (s : Flash) : Flash :=
  if c.post_bytes ≠ 0 then
    let exist_bytes := sectorSize - c.post_bytes
    let sector_buffer := fun j => readByte mem s ((c.base2 + c.post_bytes).toNat + j)
    let s := eraseSector ctx c.base2 s
    writeBytes ctx (c.base2 + c.post_bytes) sector_buffer exist_bytes s
  else s

/-- `read_size`. -/
def readSize : Nat := 1024

/-- The loop that computes the CRC of what is read back. -/
def crcLoop (crc32 : UInt32 → List UInt8 → UInt32) (read : Nat → UInt8) (left_bytes addr : Nat) (crc : UInt32) :
    UInt32 :=
  if readSize < left_bytes then
    crcLoop crc32 read (left_bytes - readSize) (addr + readSize)
      (crc32 crc ((List.range readSize).map fun j => read (addr + j)))
  else if left_bytes ≠ 0 then crc32 crc ((List.range left_bytes).map fun j => read (addr + j))
  else crc
termination_by left_bytes
decreasing_by
  simp only [readSize] at *
  omega

/-- `_write_flash_with_crc_check`. -/
def writeFlashWithCrcCheck (crc32 : UInt32 → List UInt8 → UInt32) (startAddr : UInt32) (dataBuf : Nat → UInt8)
    (dataLen crc : UInt32) (s : Flash) : Bool × Flash :=
  let c := split startAddr dataLen
  let s := preSector ctx mem startAddr dataBuf dataLen c s
  let s := writeMiddle ctx startAddr dataBuf c s
  let s := writePost ctx mem startAddr dataBuf c s
  (crc == crcLoop crc32 (fun a => readByte mem s (a % 2 ^ 32)) dataLen.toNat startAddr.toNat 0, s)

/-- `_erase_flash`. -/
def eraseFlash (startAddr dataLen : UInt32) (s : Flash) : Flash :=
  let c := split startAddr dataLen
  let s := preSector ctx mem startAddr (fun _ => 0xff) dataLen c s
  let s := eraseMiddle ctx startAddr c s
  erasePost ctx mem c s

/-! ## The cut -/

theorem sectorSize_toNat : sectorSize.toNat = 4096 := rfl

variable {startAddr dataLen : UInt32}

/-- What a cut is to its range: the three parts follow one another, and the
last two begin at a sector. -/
structure Cut (startAddr dataLen : UInt32) (c : Split) : Prop where
  base1 : c.base1.toNat = startAddr.toNat - startAddr.toNat % 4096
  sum : c.pre_bytes.toNat + c.middle_bytes.toNat + c.post_bytes.toNat = dataLen.toNat
  pre : c.pre_bytes ≠ 0 → startAddr.toNat % 4096 ≠ 0 ∧ startAddr.toNat % 4096 + c.pre_bytes.toNat ≤ 4096 ∧
    (if c.base1 = c.base2 then dataLen.toNat else 4096 - startAddr.toNat % 4096) = c.pre_bytes.toNat
  middle : c.middle_bytes.toNat % 4096 = 0 ∧
    (c.middle_bytes ≠ 0 → (startAddr.toNat + c.pre_bytes.toNat) % 4096 = 0 ∧
      (startAddr.toNat % 4096 ≠ 0 → c.pre_bytes.toNat = 4096 - startAddr.toNat % 4096))
  post : c.post_bytes ≠ 0 → c.post_bytes.toNat < 4096 ∧ c.base2.toNat % 4096 = 0 ∧
    c.base2.toNat = startAddr.toNat + c.pre_bytes.toNat + c.middle_bytes.toNat

theorem split_cut (h : startAddr.toNat + dataLen.toNat < 2 ^ 32) : Cut startAddr dataLen (split startAddr dataLen) := by
  have hend : (startAddr + dataLen).toNat = startAddr.toNat + dataLen.toNat := by
    rw [UInt32.toNat_add, Nat.mod_eq_of_lt h]
  have hmod : ∀ a : UInt32, (a % sectorSize).toNat = a.toNat % 4096 := fun a => UInt32.toNat_mod a sectorSize
  have hfloor : ∀ a : UInt32, (a - a % sectorSize).toNat = a.toNat - a.toNat % 4096 := by
    intro a
    have hle : a % sectorSize ≤ a := by
      rw [UInt32.le_iff_toNat_le, hmod]
      exact Nat.mod_le _ _
    rw [UInt32.toNat_sub_of_le _ _ hle, hmod]
  have hzero : ∀ a : UInt32, a % sectorSize = 0 ↔ a.toNat % 4096 = 0 := by
    intro a
    rw [← UInt32.toNat_inj, hmod]
    rfl
  have hsize : sectorSize.toNat = 4096 := rfl
  have hnone : (0 : UInt32).toNat = 0 := rfl
  have hwhole := Nat.mod_add_div startAddr.toNat 4096
  have hlast := Nat.mod_add_div (startAddr.toNat + dataLen.toNat) 4096
  have hbase := hfloor startAddr
  have hbase2 := hfloor (startAddr + dataLen)
  rw [hend] at hbase2
  simp only [split]
  by_cases haligned : startAddr % sectorSize = 0
  · -- the range begins at a sector
    rw [if_pos haligned]
    rw [hzero] at haligned
    have hmiddle := hfloor dataLen
    have hpost : (dataLen - (dataLen - dataLen % sectorSize)).toNat = dataLen.toNat % 4096 := by
      rw [UInt32.toNat_sub_of_le _ _ (by rw [UInt32.le_iff_toNat_le, hmiddle]; omega), hmiddle]
      omega
    refine ⟨hbase, ?_, fun h => absurd rfl h, ⟨?_, fun _ => ⟨?_, ?_⟩⟩, fun _ => ⟨?_, ?_, ?_⟩⟩ <;>
      simp only [hmiddle, hpost, hbase2, hnone] <;> omega
  · rw [if_neg haligned]
    rw [hzero] at haligned
    by_cases hsame : startAddr - startAddr % sectorSize = startAddr + dataLen - (startAddr + dataLen) % sectorSize
    · -- it ends in the sector that it begins in
      rw [if_pos hsame]
      have hsame' := congrArg UInt32.toNat hsame
      rw [hbase, hbase2] at hsame'
      refine ⟨hbase, ?_, fun _ => ⟨haligned, ?_, ?_⟩, ⟨rfl, fun h => absurd rfl h⟩, fun h => absurd rfl h⟩
      · simp only [hnone, Nat.add_zero]
      · dsimp only
        omega
      · dsimp only
        rw [if_pos hsame]
    · rw [if_neg hsame]
      have hne : startAddr.toNat - startAddr.toNat % 4096 ≠
          startAddr.toNat + dataLen.toNat - (startAddr.toNat + dataLen.toNat) % 4096 := by
        rw [← hbase, ← hbase2]
        exact fun he => hsame (UInt32.toNat_inj.1 he)
      have hpre : (sectorSize - startAddr % sectorSize).toNat = 4096 - startAddr.toNat % 4096 := by
        rw [UInt32.toNat_sub_of_le _ _ (by rw [UInt32.le_iff_toNat_le, hmod, hsize]; omega), hmod, hsize]
      have hgap : (startAddr + dataLen - (startAddr + dataLen) % sectorSize -
          (startAddr - startAddr % sectorSize)).toNat =
          startAddr.toNat + dataLen.toNat - (startAddr.toNat + dataLen.toNat) % 4096 -
            (startAddr.toNat - startAddr.toNat % 4096) := by
        rw [UInt32.toNat_sub_of_le _ _ (by rw [UInt32.le_iff_toNat_le, hbase, hbase2]; omega), hbase, hbase2]
      have hmiddle : (startAddr + dataLen - (startAddr + dataLen) % sectorSize -
          (startAddr - startAddr % sectorSize) - sectorSize).toNat =
          startAddr.toNat + dataLen.toNat - (startAddr.toNat + dataLen.toNat) % 4096 -
            (startAddr.toNat - startAddr.toNat % 4096) - 4096 := by
        rw [UInt32.toNat_sub_of_le _ _ (by rw [UInt32.le_iff_toNat_le, hgap, hsize]; omega), hgap, hsize]
      have hpost : (startAddr + dataLen - (startAddr + dataLen - (startAddr + dataLen) % sectorSize)).toNat =
          (startAddr.toNat + dataLen.toNat) % 4096 := by
        rw [UInt32.toNat_sub_of_le _ _ (by rw [UInt32.le_iff_toNat_le, hbase2, hend]; omega), hbase2, hend]
        omega
      refine ⟨hbase, ?_, fun _ => ⟨haligned, ?_, ?_⟩, ⟨?_, fun _ => ⟨?_, fun _ => ?_⟩⟩, fun _ => ⟨?_, ?_, ?_⟩⟩
      · simp only [hpre, hmiddle, hpost]
        omega
      · simp only [hpre]
        omega
      · dsimp only
        rw [if_neg hsame, hpre]
      all_goals simp only [hpre, hmiddle, hpost, hbase2] <;> omega

/-! ## What the parts do -/

section

variable {ctx mem} {s s' s'' : Flash} {data : Nat → UInt8} {offs n m : Nat}

/-- From `s` to `s'`, `n` bytes of the device from `offs` on have become `data`, and
no other byte of it has changed. -/
structure Put (ctx : Ctx) (offs : Nat) (data : Nat → UInt8) (n : Nat) (s s' : Flash) : Prop where
  idle : s'.suspend_state = .none
  flash : ∀ a, a < ctx.total_size → s'.flash a = memcpy s.flash offs data n a

theorem memcpy_congr {dst dst' src : Nat → UInt8} {offs n j : Nat} (h : dst j = dst' j) :
    memcpy dst offs src n j = memcpy dst' offs src n j := by
  unfold memcpy
  rw [h]

theorem Put.nothing (hs : s.suspend_state = .none) : Put ctx offs data 0 s s :=
  ⟨hs, fun a _ => by rw [memcpy_zero]⟩

theorem Put.append (h : Put ctx offs data n s s') (h' : Put ctx (offs + n) (fun j => data (n + j)) m s' s'') :
    Put ctx offs data (n + m) s s'' := by
  refine ⟨h'.idle, fun a ha => ?_⟩
  rw [h'.flash a ha, memcpy_congr (h.flash a ha), memcpy_append]

theorem mod_addrRange (a : Nat) : a % addrRange % 4096 = a % 4096 := Nat.mod_mod_of_dvd a (by decide)

/-- Within a sector an offset is added to the low bits. -/
theorem add_mod_addrRange {a : Nat} (ha : a % 4096 = 0) (hn : n < 4096) :
    (a + n) % addrRange = a % addrRange + n := by
  unfold addrRange
  omega

/-- The device is made of sectors. -/
theorem sector_inside (hctx : ctx.sector_size = 4096) (base : Nat) (hbase : base % 4096 = 0)
    (h : base < ctx.total_size) : base + 4096 ≤ ctx.total_size := by
  have htotal := sector_total ctx
  rw [hctx] at htotal
  exact le_of_dvd_of_lt (Nat.dvd_add (Nat.dvd_of_mod_eq_zero hbase) (Nat.dvd_refl _)) htotal (by omega)

theorem eraseSector_put (hctx : ctx.sector_size = 4096) {addr : UInt32} (haddr : addr.toNat % 4096 = 0)
    (hs : s.suspend_state = .none) :
    Put ctx (addr.toNat % addrRange) (fun _ => 0xff) 4096 s (eraseSector ctx addr s) := by
  unfold eraseSector
  rw [sectorSize_toNat]
  rcases Nat.lt_or_ge (addr.toNat % addrRange) ctx.total_size with hin | hout
  · have hdvd : ctx.sector_size ∣ addr.toNat := hctx ▸ Nat.dvd_of_mod_eq_zero haddr
    obtain ⟨hflash, hidle⟩ := halNorflashErase_sector ctx hs hdvd hin
    rw [hctx] at hflash hidle
    exact ⟨hidle, fun a _ => by rw [hflash]; rfl⟩
  · rw [(halNorflash_outside ctx (fun _ => 0) hout).1]
    exact ⟨hs, fun a ha => (memcpy_other fun h => by have := h.1; omega).symm⟩

/-- What a write within one sector does. -/
theorem writeBytes_flash (hctx : ctx.sector_size = 4096) {addr len : UInt32} (data : Nat → UInt8)
    (hlen : addr.toNat % 4096 + len.toNat ≤ 4096) (hs : s.suspend_state = .none) :
    (writeBytes ctx addr data len s).suspend_state = .none ∧ ∀ a, a < ctx.total_size →
      (writeBytes ctx addr data len s).flash a = program s.flash (addr.toNat % addrRange) len.toNat data a := by
  unfold writeBytes
  rcases Nat.lt_or_ge (addr.toNat % addrRange) ctx.total_size with hin | hout
  · have hmod := mod_addrRange addr.toNat
    have hend := sector_inside hctx (addr.toNat % addrRange - addr.toNat % 4096) (by omega) (by omega)
    have hfits : addr.toNat % addrRange + len.toNat ≤ ctx.total_size := by omega
    obtain ⟨hflash, hidle⟩ := halNorflashWrite_flash ctx data hs hfits hin
    exact ⟨hidle, fun a _ => by rw [hflash]⟩
  · rw [(halNorflash_outside ctx data hout).2]
    exact ⟨hs, fun a ha => (program_other fun h => by have := h.1; omega).symm⟩

/-- A write to erased bytes. -/
theorem writeBytes_erased (hctx : ctx.sector_size = 4096) (addr len : UInt32) (data : Nat → UInt8)
    (hlen : addr.toNat % 4096 + len.toNat ≤ 4096) (hs : s.suspend_state = .none)
    (herased : ∀ a, a < ctx.total_size → InRange (addr.toNat % addrRange) len.toNat a → s.flash a = 0xff) :
    Put ctx (addr.toNat % addrRange) data len.toNat s (writeBytes ctx addr data len s) := by
  obtain ⟨hidle, hflash⟩ := writeBytes_flash hctx data hlen hs
  refine ⟨hidle, fun a ha => ?_⟩
  rw [hflash a ha]
  by_cases h : InRange (addr.toNat % addrRange) len.toNat a
  · rw [program_of h, memcpy_of h, herased a ha h, ff_and]
  · rw [program_other h, memcpy_other h]

/-- A sector is erased and programmed anew. -/
theorem sector_put (hctx : ctx.sector_size = 4096) {addr : UInt32} (haddr : addr.toNat % 4096 = 0)
    (hs : s.suspend_state = .none) (data : Nat → UInt8) :
    Put ctx (addr.toNat % addrRange) data 4096 s (writeBytes ctx addr data sectorSize (eraseSector ctx addr s)) := by
  have herase := eraseSector_put hctx haddr hs
  have hwrite := writeBytes_erased hctx addr sectorSize data
    (by rw [haddr, sectorSize_toNat]) herase.idle (fun a ha h => by rw [herase.flash a ha]; exact memcpy_of h)
  rw [sectorSize_toNat] at hwrite
  refine ⟨hwrite.idle, fun a ha => ?_⟩
  rw [hwrite.flash a ha]
  by_cases h : InRange (addr.toNat % addrRange) 4096 a
  · rw [memcpy_of h, memcpy_of h]
  · rw [memcpy_other h, herase.flash a ha, memcpy_other h, memcpy_other h]

/-- The last sector: behind the first `n` bytes, which are `data`, the old bytes are
programmed again. -/
theorem restore_put (hctx : ctx.sector_size = 4096) {addr post exist_bytes : UInt32} (haddr : addr.toNat % 4096 = 0)
    {s₀ : Flash} (herase : Put ctx (addr.toNat % addrRange) (fun _ => 0xff) 4096 s s₀)
    (hput : Put ctx (addr.toNat % addrRange) data n s₀ s') (hpost : post.toNat = addr.toNat + n)
    (hexist : n + exist_bytes.toNat = 4096) {old : Nat → UInt8}
    (hold : ∀ j, j < exist_bytes.toNat → old j = s.flash (addr.toNat % addrRange + n + j)) (hn : n < 4096) :
    Put ctx (addr.toNat % addrRange) data n s (writeBytes ctx post old exist_bytes s') := by
  have hoffs : post.toNat % addrRange = addr.toNat % addrRange + n := by
    rw [hpost]
    exact add_mod_addrRange haddr hn
  have hwrite := writeBytes_erased hctx post exist_bytes old (by omega) hput.idle (by
    intro a ha h
    rw [hoffs] at h
    rw [hput.flash a ha, memcpy_other (fun h' => by have := h.1; have := h'.2; omega), herase.flash a ha,
      memcpy_of ⟨by have := h.1; omega, by have := h.2; omega⟩])
  refine ⟨hwrite.idle, fun a ha => ?_⟩
  rw [hwrite.flash a ha, hoffs]
  by_cases hfirst : InRange (addr.toNat % addrRange) n a
  · rw [memcpy_other (fun h => by have := h.1; have := hfirst.2; omega), hput.flash a ha, memcpy_of hfirst,
      memcpy_of hfirst]
  · rw [memcpy_other hfirst]
    by_cases hrest : InRange (addr.toNat % addrRange + n) exist_bytes.toNat a
    · -- programmed with what it was
      rw [memcpy_of hrest, hold _ (by have := hrest.1; have := hrest.2; omega)]
      congr 1
      have := hrest.1
      omega
    · have hout : ¬ InRange (addr.toNat % addrRange) 4096 a := by
        simp only [InRange] at hfirst hrest ⊢
        omega
      rw [memcpy_other hrest, hput.flash a ha, memcpy_other hfirst, herase.flash a ha, memcpy_other hout]

/-- A copy of a sector with a part of it changed is the same as the part changed. -/
theorem memcpy_within {f buffer : Nat → UInt8} {base : Nat} (hlen : offs + n ≤ 4096)
    (hbuffer : ∀ j, j < 4096 → buffer j = f (base + j)) (a : Nat) :
    memcpy f base (memcpy buffer offs data n) 4096 a = memcpy f (base + offs) data n a := by
  by_cases hpart : InRange (base + offs) n a
  · have hle := hpart.1
    have hlt := hpart.2
    have hin : InRange offs n (a - base) := ⟨by omega, by omega⟩
    rw [memcpy_of (show InRange base 4096 a from ⟨by omega, by omega⟩), memcpy_of hin, memcpy_of hpart, Nat.sub_sub]
  · rw [memcpy_other hpart]
    by_cases hsector : InRange base 4096 a
    · have hle := hsector.1
      have hlt := hsector.2
      have hout : ¬ InRange offs n (a - base) := by
        simp only [InRange] at hpart ⊢
        omega
      rw [memcpy_of hsector, memcpy_other hout, hbuffer _ (by omega)]
      congr 1
      omega
    · rw [memcpy_other hsector]

/-- A "proper address", with its length: a range in a window of the flash. -/
structure Proper (startAddr dataLen : UInt32) : Prop where
  window : InFlash startAddr.toNat
  fits : startAddr.toNat % addrRange + dataLen.toNat ≤ addrRange

theorem Proper.no_wrap (h : Proper startAddr dataLen) : startAddr.toNat + dataLen.toNat < 2 ^ 32 := by
  have hwindow := h.window
  have hfits := h.fits
  simp only [InFlash, addrRange, List.mem_cons, List.not_mem_nil, or_false] at hwindow hfits
  omega

/-- In its window the flash is read. -/
theorem Proper.read (h : Proper startAddr dataLen) {addr : Nat} (ha : addr / addrRange = startAddr.toNat / addrRange)
    (s : Flash) : readByte mem s addr = s.flash (addr % addrRange) := by
  have hin : InFlash addr := by
    unfold InFlash
    rw [ha]
    exact h.window
  rw [readByte, if_pos hin]

theorem preSector_put (mem : Nat → UInt8) (hctx : ctx.sector_size = 4096) (h : Proper startAddr dataLen) {c : Split}
    (hc : Cut startAddr dataLen c) (dataBuf : Nat → UInt8) (hs : s.suspend_state = .none) :
    Put ctx (startAddr.toNat % addrRange) dataBuf c.pre_bytes.toNat s
      (preSector ctx mem startAddr dataBuf dataLen c s) := by
  unfold preSector
  by_cases hpre : c.pre_bytes ≠ 0
  · obtain ⟨hunaligned, hlen, hcopy⟩ := hc.pre hpre
    have hbase := hc.base1
    have hoff : (startAddr - c.base1).toNat = startAddr.toNat % 4096 := by
      rw [UInt32.toNat_sub_of_le _ _ (by rw [UInt32.le_iff_toNat_le, hbase]; omega), hbase]
      omega
    have hcount : (if c.base1 = c.base2 then dataLen else sectorSize - (startAddr - c.base1)).toNat =
        c.pre_bytes.toNat := by
      rw [← hcopy]
      split
      · rfl
      · rw [UInt32.toNat_sub_of_le _ _ (by rw [UInt32.le_iff_toNat_le, hoff, sectorSize_toNat]; omega), hoff,
          sectorSize_toNat]
    have hmod := mod_addrRange startAddr.toNat
    have hlow : c.base1.toNat % addrRange + startAddr.toNat % 4096 = startAddr.toNat % addrRange := by
      rw [hbase]
      unfold addrRange
      omega
    rw [if_pos hpre]
    dsimp only
    rw [hcount, hoff]
    obtain ⟨hidle, hflash⟩ := sector_put hctx (show c.base1.toNat % 4096 = 0 by rw [hbase]; omega) hs
      (memcpy (fun j => readByte mem s (c.base1.toNat + j)) (startAddr.toNat % 4096) dataBuf c.pre_bytes.toNat)
    refine ⟨hidle, fun a ha => ?_⟩
    rw [hflash a ha, memcpy_within hlen, hlow]
    intro j hj
    rw [h.read (by rw [hbase]; unfold addrRange; omega), add_mod_addrRange (by rw [hbase]; omega) hj]
  · rw [if_neg hpre]
    have hzero : c.pre_bytes.toNat = 0 := by
      rw [Decidable.not_not.1 hpre]
      rfl
    rw [hzero]
    exact Put.nothing hs

/-- A loop over whole sectors, from the `k`th of `count` on. -/
theorem sectorLoop_put {body : UInt32 → Flash → Flash} {base count : Nat}
    (data : Nat → UInt8) (hbody : ∀ k, k < count → ∀ s, s.suspend_state = .none →
      Put ctx (base + k * 4096) (fun j => data (k * 4096 + j)) 4096 s (body (UInt32.ofNat k) s))
    (n k : Nat) (hk : k + n ≤ count) (hs : s.suspend_state = .none) :
    Put ctx (base + k * 4096) (fun j => data (k * 4096 + j)) (n * 4096) s (sectorLoop body n (UInt32.ofNat k) s) := by
  induction n generalizing k s with
  | zero =>
    rw [Nat.zero_mul]
    exact Put.nothing hs
  | succ n ih =>
    have hfirst := hbody k (by omega) s hs
    have hrest := ih (k + 1) (by omega) hfirst.idle
    rw [sectorLoop, Nat.add_mul, Nat.one_mul, Nat.add_comm (n * 4096)]
    apply hfirst.append
    have hnext : UInt32.ofNat k + 1 = UInt32.ofNat (k + 1) := (UInt32.ofNat_add k 1).symm
    rw [hnext]
    have hbase : base + k * 4096 + 4096 = base + (k + 1) * 4096 := by omega
    have hdata : (fun j => data (k * 4096 + (4096 + j))) = fun j => data ((k + 1) * 4096 + j) := by
      funext j
      exact congrArg data (by omega)
    rw [hbase, hdata]
    exact hrest

/-- Where the whole sectors are, and which data they get. -/
theorem middle_at (h : Proper startAddr dataLen) {c : Split} (hc : Cut startAddr dataLen c) (hm : c.middle_bytes ≠ 0)
    {k : Nat} (hk : k < c.middle_bytes.toNat / 4096) :
    (c.middleStartAddr startAddr + UInt32.ofNat k * sectorSize).toNat % 4096 = 0 ∧
    (c.middleStartAddr startAddr + UInt32.ofNat k * sectorSize).toNat % addrRange =
      startAddr.toNat % addrRange + c.pre_bytes.toNat + k * 4096 ∧
    (c.middleStartAddr startAddr - startAddr + UInt32.ofNat k * sectorSize).toNat = c.pre_bytes.toNat + k * 4096 := by
  obtain ⟨hstart, hpre⟩ := hc.middle.2 hm
  have hsum := hc.sum
  have hfits := h.fits
  have hwrap := h.no_wrap
  have hbase := hc.base1
  have hoffset : (UInt32.ofNat k * sectorSize).toNat = k * 4096 := by
    rw [UInt32.toNat_mul, UInt32.toNat_ofNat', sectorSize_toNat]
    omega
  have hfrom : (c.middleStartAddr startAddr).toNat = startAddr.toNat + c.pre_bytes.toNat := by
    unfold Split.middleStartAddr
    by_cases hne : c.base1 ≠ startAddr
    · have hunaligned : startAddr.toNat % 4096 ≠ 0 := by
        intro hzero
        rw [hzero, Nat.sub_zero] at hbase
        exact hne (UInt32.toNat_inj.1 hbase)
      rw [if_pos hne, UInt32.toNat_add, hbase, sectorSize_toNat, hpre hunaligned]
      omega
    · have haligned : startAddr.toNat % 4096 = 0 := by
        rw [Decidable.not_not.1 hne] at hbase
        omega
      have hzero : c.pre_bytes = 0 := by
        by_contra hsome
        exact (hc.pre hsome).1 haligned
      rw [if_neg hne, Decidable.not_not.1 hne, hzero]
      rfl
  have hgap : (c.middleStartAddr startAddr - startAddr).toNat = c.pre_bytes.toNat := by
    rw [UInt32.toNat_sub_of_le _ _ (by rw [UInt32.le_iff_toNat_le, hfrom]; omega), hfrom]
    omega
  have haddr : (c.middleStartAddr startAddr + UInt32.ofNat k * sectorSize).toNat =
      startAddr.toNat + c.pre_bytes.toNat + k * 4096 := by
    rw [UInt32.toNat_add, hfrom, hoffset, Nat.mod_eq_of_lt (by omega)]
  refine ⟨?_, ?_, ?_⟩
  · rw [haddr]
    omega
  · rw [haddr]
    unfold addrRange at hfits ⊢
    omega
  · rw [UInt32.toNat_add, hgap, hoffset, Nat.mod_eq_of_lt (by omega)]

/-- The loop over the whole sectors, with what it does to one of them. -/
theorem middle_put {c : Split} (hc : Cut startAddr dataLen c) {body : UInt32 → Flash → Flash} (dataBuf : Nat → UInt8)
    (hbody : c.middle_bytes ≠ 0 → ∀ k, k < c.middle_bytes.toNat / 4096 → ∀ s, s.suspend_state = .none →
      Put ctx (startAddr.toNat % addrRange + c.pre_bytes.toNat + k * 4096)
        (fun j => dataBuf (c.pre_bytes.toNat + (k * 4096 + j))) 4096 s (body (UInt32.ofNat k) s))
    (hs : s.suspend_state = .none) :
    Put ctx (startAddr.toNat % addrRange + c.pre_bytes.toNat) (fun j => dataBuf (c.pre_bytes.toNat + j))
      c.middle_bytes.toNat s
      (if c.middle_bytes ≠ 0 then sectorLoop body (c.middle_bytes / sectorSize).toNat 0 s else s) := by
  by_cases hm : c.middle_bytes ≠ 0
  · rw [if_pos hm, UInt32.toNat_div, sectorSize_toNat]
    have hloop := sectorLoop_put (fun j => dataBuf (c.pre_bytes.toNat + j)) (hbody hm)
      (c.middle_bytes.toNat / 4096) 0 (by omega) hs
    rw [Nat.zero_mul, Nat.add_zero, Nat.div_mul_cancel (Nat.dvd_of_mod_eq_zero hc.middle.1)] at hloop
    simp only [Nat.zero_add] at hloop
    exact hloop
  · rw [if_neg hm]
    have hzero : c.middle_bytes.toNat = 0 := by
      rw [Decidable.not_not.1 hm]
      rfl
    rw [hzero]
    exact Put.nothing hs

theorem writeMiddle_put (hctx : ctx.sector_size = 4096) (h : Proper startAddr dataLen) {c : Split}
    (hc : Cut startAddr dataLen c) (dataBuf : Nat → UInt8) (hs : s.suspend_state = .none) :
    Put ctx (startAddr.toNat % addrRange + c.pre_bytes.toNat) (fun j => dataBuf (c.pre_bytes.toNat + j))
      c.middle_bytes.toNat s (writeMiddle ctx startAddr dataBuf c s) := by
  apply middle_put hc dataBuf _ hs
  intro hm k hk s hs
  obtain ⟨hsector, hlow, hdata⟩ := middle_at h hc hm hk
  have hput := sector_put hctx hsector hs
    (fun j => dataBuf ((c.middleStartAddr startAddr - startAddr + UInt32.ofNat k * sectorSize).toNat + j))
  rw [hlow] at hput
  simp only [hdata, Nat.add_assoc] at hput ⊢
  exact hput

theorem eraseMiddle_put (hctx : ctx.sector_size = 4096) (h : Proper startAddr dataLen) {c : Split}
    (hc : Cut startAddr dataLen c) (hs : s.suspend_state = .none) :
    Put ctx (startAddr.toNat % addrRange + c.pre_bytes.toNat) (fun _ => 0xff) c.middle_bytes.toNat s
      (eraseMiddle ctx startAddr c s) := by
  apply middle_put hc (fun _ => 0xff) _ hs
  intro hm k hk s hs
  obtain ⟨hsector, hlow, -⟩ := middle_at h hc hm hk
  rw [← hlow]
  exact eraseSector_put hctx hsector hs

/-- Where the last sector is, and what is read of it. -/
theorem post_at (mem : Nat → UInt8) (s : Flash) (h : Proper startAddr dataLen) {c : Split}
    (hc : Cut startAddr dataLen c) (hp : c.post_bytes ≠ 0) :
    c.base2.toNat % addrRange =
      startAddr.toNat % addrRange + c.pre_bytes.toNat + c.middle_bytes.toNat ∧
    (c.base2 + c.post_bytes).toNat = c.base2.toNat + c.post_bytes.toNat ∧
    c.post_bytes.toNat + (sectorSize - c.post_bytes).toNat = 4096 ∧
    (c.base2 - startAddr).toNat = c.pre_bytes.toNat + c.middle_bytes.toNat ∧
    ∀ j, j < (sectorSize - c.post_bytes).toNat →
      readByte mem s ((c.base2 + c.post_bytes).toNat + j) =
        s.flash (c.base2.toNat % addrRange + c.post_bytes.toNat + j) := by
  obtain ⟨hlt, hsector, hbase⟩ := hc.post hp
  have hsum := hc.sum
  have hfits := h.fits
  have hwrap := h.no_wrap
  have hpos : 0 < c.post_bytes.toNat := by
    apply Nat.pos_of_ne_zero
    intro hzero
    exact hp (UInt32.toNat_inj.1 hzero)
  have hend : (c.base2 + c.post_bytes).toNat = c.base2.toNat + c.post_bytes.toNat := by
    rw [UInt32.toNat_add, Nat.mod_eq_of_lt (by omega)]
  have hexist : (sectorSize - c.post_bytes).toNat = 4096 - c.post_bytes.toNat := by
    rw [UInt32.toNat_sub_of_le _ _ (by rw [UInt32.le_iff_toNat_le, sectorSize_toNat]; omega), sectorSize_toNat]
  refine ⟨?_, hend, by omega, ?_, fun j hj => ?_⟩
  · rw [hbase]
    unfold addrRange at hfits ⊢
    omega
  · rw [UInt32.toNat_sub_of_le _ _ (by rw [UInt32.le_iff_toNat_le, hbase]; omega), hbase]
    omega
  · rw [hend, h.read (by unfold addrRange at hfits ⊢; omega), Nat.add_assoc, Nat.add_assoc,
      add_mod_addrRange hsector (by omega)]

theorem post_zero {c : Split} (hp : ¬ c.post_bytes ≠ 0) : c.post_bytes.toNat = 0 := by
  rw [Decidable.not_not.1 hp]
  rfl

theorem writePost_put (mem : Nat → UInt8) (hctx : ctx.sector_size = 4096) (h : Proper startAddr dataLen) {c : Split}
    (hc : Cut startAddr dataLen c) (dataBuf : Nat → UInt8) (hs : s.suspend_state = .none) :
    Put ctx (startAddr.toNat % addrRange + (c.pre_bytes.toNat + c.middle_bytes.toNat))
      (fun j => dataBuf (c.pre_bytes.toNat + c.middle_bytes.toNat + j)) c.post_bytes.toNat s
      (writePost ctx mem startAddr dataBuf c s) := by
  unfold writePost
  by_cases hp : c.post_bytes ≠ 0
  · obtain ⟨hlow, hend, hexist, hgap, hold⟩ := post_at mem s h hc hp
    obtain ⟨hlt, hsector, -⟩ := hc.post hp
    have herase := eraseSector_put hctx hsector hs
    have hwrite := writeBytes_erased hctx c.base2 c.post_bytes
      (fun j => dataBuf ((c.base2 - startAddr).toNat + j)) (by omega) herase.idle (by
        intro a ha hin
        rw [herase.flash a ha, memcpy_of ⟨hin.1, by have := hin.2; omega⟩])
    rw [if_pos hp, ← Nat.add_assoc, ← hlow, ← hgap]
    exact restore_put hctx hsector herase hwrite hend hexist hold hlt
  · rw [if_neg hp, post_zero hp]
    exact Put.nothing hs

theorem erasePost_put (mem : Nat → UInt8) (hctx : ctx.sector_size = 4096) (h : Proper startAddr dataLen) {c : Split}
    (hc : Cut startAddr dataLen c) (hs : s.suspend_state = .none) :
    Put ctx (startAddr.toNat % addrRange + (c.pre_bytes.toNat + c.middle_bytes.toNat)) (fun _ => 0xff)
      c.post_bytes.toNat s (erasePost ctx mem c s) := by
  unfold erasePost
  by_cases hp : c.post_bytes ≠ 0
  · obtain ⟨hlow, hend, hexist, -, hold⟩ := post_at mem s h hc hp
    obtain ⟨hlt, hsector, -⟩ := hc.post hp
    have herase := eraseSector_put hctx hsector hs
    -- the bytes in front are erased already
    have hfront : Put ctx (c.base2.toNat % addrRange) (fun _ => 0xff) c.post_bytes.toNat (eraseSector ctx c.base2 s)
        (eraseSector ctx c.base2 s) := by
      refine ⟨herase.idle, fun a ha => ?_⟩
      by_cases hin : InRange (c.base2.toNat % addrRange) c.post_bytes.toNat a
      · rw [memcpy_of hin, herase.flash a ha, memcpy_of ⟨hin.1, by have := hin.2; omega⟩]
      · rw [memcpy_other hin]
    rw [if_pos hp, ← Nat.add_assoc, ← hlow]
    exact restore_put hctx hsector herase hfront hend hexist hold hlt
  · rw [if_neg hp, post_zero hp]
    exact Put.nothing hs

/-! ## While an operation is suspended -/

theorem eraseSector_suspended {addr : UInt32} (hs : s.suspend_state ≠ .none) : eraseSector ctx addr s = s := by
  rw [eraseSector, halNorflashErase, halNorflashEraseSuspend, if_pos hs]

theorem writeBytes_suspended {addr len : UInt32} (hs : s.suspend_state ≠ .none) :
    writeBytes ctx addr data len s = s := by
  rw [writeBytes, halNorflashWrite, halNorflashWriteSuspend, if_pos hs]

theorem sectorLoop_same {body : UInt32 → Flash → Flash} (hbody : ∀ i, body i s = s) (n : Nat) (i : UInt32) :
    sectorLoop body n i s = s := by
  induction n generalizing i with
  | zero => rfl
  | succ n ih => rw [sectorLoop, hbody, ih]

theorem parts_suspended (ctx : Ctx) (mem : Nat → UInt8) (hs : s.suspend_state ≠ .none) (startAddr dataLen : UInt32)
    (dataBuf : Nat → UInt8) (c : Split) : preSector ctx mem startAddr dataBuf dataLen c s = s ∧
    writeMiddle ctx startAddr dataBuf c s = s ∧ eraseMiddle ctx startAddr c s = s ∧
    writePost ctx mem startAddr dataBuf c s = s ∧ erasePost ctx mem c s = s := by
  have herase : ∀ addr, eraseSector ctx addr s = s := fun addr => eraseSector_suspended hs
  have hwrite : ∀ addr data len, writeBytes ctx addr data len s = s := fun addr data len => writeBytes_suspended hs
  refine ⟨?_, ?_, ?_, ?_, ?_⟩
  · simp only [preSector, herase, hwrite, ite_self]
  · unfold writeMiddle
    dsimp only
    rw [sectorLoop_same (fun i => by rw [herase, hwrite]), ite_self]
  · unfold eraseMiddle
    dsimp only
    rw [sectorLoop_same (fun i => herase _), ite_self]
  · simp only [writePost, herase, hwrite, ite_self]
  · simp only [erasePost, herase, hwrite, ite_self]

end

/-! ## The law of both functions -/

/-- With a proper address the writer and the eraser change the bytes of their
range, as far as the device has them, and no others. While an operation on the
flash is suspended they change nothing. -/
theorem flash_update_framed (ctx : Ctx) (mem : Nat → UInt8) (crc32 : UInt32 → List UInt8 → UInt32)
    (startAddr : UInt32) (dataBuf : Nat → UInt8) (dataLen crc : UInt32) (s : Flash)
    (hctx : ctx.sector_size = sectorSize.toNat) (h : Proper startAddr dataLen) :
    (s.suspend_state = .none → ∀ a, a < ctx.total_size →
      (writeFlashWithCrcCheck ctx mem crc32 startAddr dataBuf dataLen crc s).2.flash a =
        memcpy s.flash (startAddr.toNat % addrRange) dataBuf dataLen.toNat a ∧
      (eraseFlash ctx mem startAddr dataLen s).flash a =
        memcpy s.flash (startAddr.toNat % addrRange) (fun _ => 0xff) dataLen.toNat a) ∧
    (s.suspend_state ≠ .none → (writeFlashWithCrcCheck ctx mem crc32 startAddr dataBuf dataLen crc s).2 = s ∧
      eraseFlash ctx mem startAddr dataLen s = s) := by
  have hc := split_cut h.no_wrap
  constructor
  · intro hs
    have hwrite : Put ctx (startAddr.toNat % addrRange) dataBuf dataLen.toNat s
        (writeFlashWithCrcCheck ctx mem crc32 startAddr dataBuf dataLen crc s).2 := by
      have hpre := preSector_put mem hctx h hc dataBuf hs
      have hmiddle := writeMiddle_put hctx h hc dataBuf hpre.idle
      have hpost := writePost_put mem hctx h hc dataBuf hmiddle.idle
      have hput := (hpre.append hmiddle).append hpost
      rw [hc.sum] at hput
      exact hput
    have herase : Put ctx (startAddr.toNat % addrRange) (fun _ => 0xff) dataLen.toNat s
        (eraseFlash ctx mem startAddr dataLen s) := by
      have hpre := preSector_put mem hctx h hc (fun _ => 0xff) hs
      have hmiddle := eraseMiddle_put hctx h hc hpre.idle
      have hpost := erasePost_put mem hctx h hc hmiddle.idle
      have hput := (hpre.append hmiddle).append hpost
      rw [hc.sum] at hput
      exact hput
    exact fun a ha => ⟨hwrite.flash a ha, herase.flash a ha⟩
  · intro hs
    have hparts := parts_suspended ctx mem hs startAddr dataLen
    constructor
    · obtain ⟨hpre, hmiddle, -, hpost, -⟩ := hparts dataBuf (split startAddr dataLen)
      simp only [writeFlashWithCrcCheck]
      rw [hpre, hmiddle, hpost]
    · obtain ⟨hpre, -, hmiddle, -, hpost⟩ := hparts (fun _ => 0xff) (split startAddr dataLen)
      simp only [eraseFlash]
      rw [hpre, hmiddle, hpost]

/-- A device of two sectors. -/
def twoSectors : Ctx where
  total_size := 8192
  block_size := 8192
  sector_size := 4096
  page_size := 256
  mode_suspend := true
  total_pos := by decide
  total_le := by decide
  sector_pos := by decide
  sector_block := by decide
  block_total := by decide
  block_range := by decide
  page_pos := by decide
  page_le := by decide

/-- The device, programmed to `0xaa`. -/
def programmed (suspend_state : SuspendState) : Flash where
  flash _ := 0xaa
  chipOp := none
  suspend_state := suspend_state
  op_next_addr := 0
  op_next_buf _ := 0
  op_remain_len := 0
  irqs := []

/-- From the middle of the first sector into the second one. -/
theorem flash_update_two_sectors :
    (SuspendState.none = .none → ∀ a, a < twoSectors.total_size →
      (writeFlashWithCrcCheck twoSectors (fun _ => 0) (fun c _ => c) 0x3c000ff0 (fun _ => 7) 32 0
          (programmed .none)).2.flash a =
        memcpy (programmed .none).flash 0xff0 (fun _ => 7) 32 a ∧
      (eraseFlash twoSectors (fun _ => 0) 0x3c000ff0 32 (programmed .none)).flash a =
        memcpy (programmed .none).flash 0xff0 (fun _ => 0xff) 32 a) ∧
    (SuspendState.none ≠ .none →
      (writeFlashWithCrcCheck twoSectors (fun _ => 0) (fun c _ => c) 0x3c000ff0 (fun _ => 7) 32 0
          (programmed .none)).2 = programmed .none ∧
      eraseFlash twoSectors (fun _ => 0) 0x3c000ff0 32 (programmed .none) = programmed .none) :=
  flash_update_framed twoSectors (fun _ => 0) (fun c _ => c) 0x3c000ff0 (fun _ => 7) 32 0 (programmed .none) rfl
    ⟨by decide, by decide⟩

/-- An address in the RAM: the first sector of the flash is overwritten with what
the RAM holds. While an operation is suspended nothing is erased. -/
theorem improper_address :
    (eraseFlash twoSectors (fun _ => 0) 0x20000001 1 (programmed .none)).flash 0 ≠ (programmed .none).flash 0 ∧
    (eraseFlash twoSectors (fun _ => 0) 0x3c000000 4096 (programmed .erase)).flash 0 ≠ 0xff := by
  decide +kernel

end Tota.FlashProgram
