import LittleBuddy.Hal.Norflash
import Mathlib
/-!
# Suspension is transparent, but for the last piece of the device

`suspension_transparent`: an erase or a write that is suspended and resumed
does what it does undisturbed, if and only if its range is within the device
and no interrupt suspends the last piece of a range up to the end of the
device. A chip erase is one command and is not affected.
-/
open NorMem

namespace Hal.Norflash

variable (ctx : Ctx) {base stop start_address len : Nat} {c : Cursor} {s : Flash}

/-- The command of a piece of an erase. -/
def eraseOp (c : Cursor) (size : Nat) : ChipOp := .erase (c.current_address % addrRange) size

/-- The command of a piece of a write. -/
def writeOp (c : Cursor) (size : Nat) : ChipOp := .program (c.current_address % addrRange) size c.current_buffer

/-- Where an erase starts. -/
def Ctx.eraseStart (start_address len : Nat) : Cursor :=
  ⟨ctx.alignStart start_address, fun _ => 0, ctx.alignLen start_address len⟩

/-- The erase of the whole chip is one command. -/
def Ctx.WholeChip (start_address len : Nat) : Prop :=
  ctx.alignStart start_address % addrRange = 0 ∧ ctx.alignLen start_address len ≥ ctx.total_size

instance : Decidable (ctx.WholeChip start_address len) := inferInstanceAs (Decidable (_ ∧ _))

/-- A range that ends at the end of the device, with the saved address out of
range there. -/
def Ctx.ToEnd (stop : Nat) : Prop := stop = ctx.total_size ∧ ctx.total_size < addrRange

instance (stop : Nat) : Decidable (ctx.ToEnd stop) := inferInstanceAs (Decidable (_ ∧ _))

/-- An erase to the end of the device, with its last piece suspended. -/
def Ctx.EraseCut (start_address len : Nat) (irqs : List (Option Mem)) : Prop :=
  ctx.mode_suspend = true ∧ ¬ ctx.WholeChip start_address len ∧
  ctx.ToEnd (ctx.alignStart start_address % addrRange + ctx.alignLen start_address len) ∧
  LastSuspended (allPieces ctx.eraseSize eraseOp (ctx.eraseStart start_address len)) irqs

/-- A write to the end of the device, with its last piece suspended. -/
def Ctx.WriteCut (start_address : Nat) (buffer : Nat → UInt8) (len : Nat) (irqs : List (Option Mem)) : Prop :=
  ctx.mode_suspend = true ∧ ctx.ToEnd (start_address % addrRange + len) ∧
  LastSuspended (allPieces ctx.writeSize writeOp ⟨start_address, buffer, len⟩) irqs

/-- The operation ended well, and the flash is as `plain` leaves it. -/
def Transparent (r plain : Ret × Flash) : Prop :=
  r.1 = .ok ∧ r.2.suspend_state = .none ∧ r.2.flash = plain.2.flash

/-! ## Addresses -/

/-- `c` is on the way from the multiple `base` of the address range to `stop`. -/
structure Within (base stop : Nat) (c : Cursor) : Prop where
  base_mod : base % addrRange = 0
  stop_le : stop ≤ ctx.total_size
  at_offset : ∃ o, c.current_address = base + o ∧ o + c.remain_len = stop

/-- `c` is a place of an erase that is not one of the whole chip. -/
structure InErase (base stop : Nat) (c : Cursor) : Prop extends Within ctx base stop c where
  addr_sector : ctx.sector_size ∣ c.current_address
  remain_sector : ctx.sector_size ∣ c.remain_len
  not_chip : c.remain_len < ctx.total_size
  no_buffer : c.current_buffer = fun _ => 0

theorem sector_range : ctx.sector_size ∣ addrRange := Nat.dvd_trans ctx.sector_block ctx.block_range

theorem sector_total : ctx.sector_size ∣ ctx.total_size := Nat.dvd_trans ctx.sector_block ctx.block_total

theorem Within.next {size : Nat} (h : Within ctx base stop c) (hsize : size ≤ c.remain_len) :
    Within ctx base stop (c.next size) := by
  obtain ⟨o, ho, hstop⟩ := h.at_offset
  refine ⟨h.base_mod, h.stop_le, o + size, ?_, ?_⟩
  · simp only [Cursor.next, ho, Nat.add_assoc]
  · simp only [Cursor.next]
    omega

theorem check_none : ctx.check start_address len = none ↔
    start_address % addrRange < ctx.total_size ∧ len ≤ ctx.total_size - start_address % addrRange := by
  unfold Ctx.check
  split
  · simp only [reduceCtorEq, false_iff]
    omega
  · split
    · simp only [reduceCtorEq, false_iff]
      omega
    · simp only [true_iff]
      omega

theorem Within.start (buffer : Nat → UInt8) (h : ctx.check start_address len = none) :
    Within ctx (start_address - start_address % addrRange) (start_address % addrRange + len)
      ⟨start_address, buffer, len⟩ := by
  obtain ⟨haddr, hlen⟩ := (check_none ctx).1 h
  refine ⟨Nat.mod_eq_zero_of_dvd (Nat.dvd_sub_mod _), by omega, start_address % addrRange, ?_, rfl⟩
  have := Nat.mod_le start_address addrRange
  simp only
  omega

/-- Address and length are checked again where an operation goes on. -/
theorem Within.check (h : Within ctx base stop c) :
    ctx.check c.current_address c.remain_len = if c.remain_len = 0 ∧ ctx.ToEnd stop then some .badAddr else none := by
  obtain ⟨o, ho, hstop⟩ := h.at_offset
  have hle := h.stop_le
  have htotal := ctx.total_le
  have hpos := ctx.total_pos
  have hmod : c.current_address % addrRange = o % addrRange := by
    rw [ho, Nat.add_mod, h.base_mod, Nat.zero_add, Nat.mod_mod]
  have hend : c.remain_len = 0 ∧ ctx.ToEnd stop ↔ o = ctx.total_size ∧ ctx.total_size < addrRange := by
    unfold Ctx.ToEnd
    omega
  simp only [Ctx.check, hmod, hend]
  rcases Nat.lt_or_ge o ctx.total_size with hlt | hge
  · rw [Nat.mod_eq_of_lt (Nat.lt_of_lt_of_le hlt htotal), if_neg (by omega), if_neg (by omega), if_neg (by omega)]
  · -- the end of the device
    have heq : o = ctx.total_size := by omega
    rcases Nat.lt_or_ge ctx.total_size addrRange with hsmall | hbig
    · rw [heq, Nat.mod_eq_of_lt hsmall, if_pos (Nat.le_refl _), if_pos ⟨rfl, hsmall⟩]
    · have hzero : o % addrRange = 0 := by rw [heq, Nat.le_antisymm htotal hbig, Nat.mod_self]
      rw [hzero, if_neg (by omega), if_neg (by omega), if_neg (by omega)]

theorem le_of_dvd_of_lt {d a b : Nat} (ha : d ∣ a) (hb : d ∣ b) (h : a < b + d) : a ≤ b := by
  apply Nat.le_of_not_lt
  intro hlt
  have := Nat.le_of_dvd (Nat.sub_pos_of_lt hlt) (Nat.dvd_sub ha hb)
  omega

/-! ## Erase -/

theorem alignLen_spec (start_address len : Nat) : ctx.sector_size ∣ ctx.alignLen start_address len ∧
    ctx.alignLen start_address len < len + start_address % ctx.sector_size + ctx.sector_size := by
  have hlt := Nat.mod_lt (len + start_address % ctx.sector_size) ctx.sector_pos
  simp only [Ctx.alignLen]
  split
  · constructor
    · have hdiv := Nat.div_add_mod (len + start_address % ctx.sector_size) ctx.sector_size
      refine ⟨(len + start_address % ctx.sector_size) / ctx.sector_size + 1, ?_⟩
      rw [Nat.mul_add, Nat.mul_one]
      omega
    · omega
  · next h =>
    constructor
    · exact Nat.dvd_of_mod_eq_zero (Decidable.of_not_not h)
    · have := ctx.sector_pos
      omega

theorem eraseSize_pos (c : Cursor) (_ : c.remain_len > 0) : 0 < ctx.eraseSize c := by
  have hblock : 0 < ctx.block_size := Nat.pos_of_dvd_of_pos ctx.block_total ctx.total_pos
  have hsector := ctx.sector_pos
  unfold Ctx.eraseSize
  split <;> assumption

theorem InErase.next (h : InErase ctx base stop c) (hpos : c.remain_len > 0) :
    InErase ctx base stop (c.next (ctx.eraseSize c)) := by
  have hsector : ctx.sector_size ∣ ctx.eraseSize c := by
    unfold Ctx.eraseSize
    split
    · exact ctx.sector_block
    · exact Nat.dvd_refl _
  have hle : ctx.eraseSize c ≤ c.remain_len := by
    unfold Ctx.eraseSize
    split
    · next hb => exact hb.1
    · exact Nat.le_of_dvd hpos h.remain_sector
  refine ⟨h.toWithin.next ctx hle, Nat.dvd_add h.addr_sector hsector, Nat.dvd_sub h.remain_sector hsector,
    Nat.lt_of_le_of_lt (Nat.sub_le _ _) h.not_chip, ?_⟩
  simp only [Cursor.next, h.no_buffer]

theorem InErase.aligned (h : InErase ctx base stop c) : ctx.eraseStart c.current_address c.remain_len = c := by
  have h₁ := Nat.mod_eq_zero_of_dvd h.addr_sector
  have h₂ := Nat.mod_eq_zero_of_dvd h.remain_sector
  simp only [Ctx.eraseStart, Ctx.alignStart, Ctx.alignLen, h₁, h₂, Nat.sub_zero, Nat.add_zero, ne_eq, not_true_eq_false,
    if_false, ← h.no_buffer]

/-- `hal_norflash_erase_int` behind its check, for less than the whole chip. -/
theorem eraseInt_pieces (suspend : Bool) (h : ctx.check start_address len = none)
    (hchip : ¬ ctx.WholeChip start_address len) :
    halNorflashEraseInt ctx start_address len suspend s =
      saveErase (pieceLoop ctx.eraseSize (fun c size => norflashErase c.current_address size suspend)
        (ctx.alignLen start_address len) (ctx.eraseStart start_address len) s) := by
  unfold Ctx.WholeChip at hchip
  simp only [halNorflashEraseInt, h]
  rw [if_neg hchip]
  rfl

/-- `hal_norflash_erase_int` where an erase goes on. -/
theorem eraseInt_at (h : InErase ctx base stop c) : halNorflashEraseInt ctx c.current_address c.remain_len true s =
    if c.remain_len = 0 ∧ ctx.ToEnd stop then (.badAddr, s)
    else saveErase (pieceLoop ctx.eraseSize (fun c size => norflashErase c.current_address size true) c.remain_len c s) := by
  have hal := h.aligned
  have hcheck := h.toWithin.check
  by_cases hend : c.remain_len = 0 ∧ ctx.ToEnd stop
  · rw [if_pos hend] at hcheck ⊢
    simp only [halNorflashEraseInt, hcheck]
  · rw [if_neg hend] at hcheck ⊢
    have hlen : ctx.alignLen c.current_address c.remain_len = c.remain_len := congrArg Cursor.remain_len hal
    rw [eraseInt_pieces ctx true hcheck (fun hw => by have := hw.2; have := h.not_chip; omega), hal, hlen]

/-- What an erase saves. -/
def EraseSaved (c : Cursor) (s : Flash) : Prop :=
  s.suspend_state = .erase ∧ s.op_next_addr = c.current_address ∧ s.op_remain_len = c.remain_len

theorem saveErase_spec : SaveSpec saveErase EraseSaved :=
  ⟨fun _ _ => rfl, fun _ _ => ⟨_, rfl, ⟨rfl, rfl, rfl⟩, rfl, rfl, rfl⟩, fun _ _ _ _ _ h => h⟩

theorem erase_resumable (hmode : ctx.mode_suspend = true) (base stop : Nat) :
    Resumable ctx.eraseSize eraseOp (fun c size => norflashErase c.current_address size true) saveErase EraseSaved
      (halNorflashEraseResume ctx true) (InErase ctx base stop) (ctx.ToEnd stop) := by
  refine ⟨saveErase_spec, fun _ _ _ _ => rfl, eraseSize_pos ctx, fun _ hc hpos => hc.next ctx hpos, ?_⟩
  intro c op s hc hheld
  obtain ⟨hstate, haddr, hlen⟩ := hheld.saved
  simp only [halNorflashEraseResume, hstate, hmode, norflashResume, hheld.chip, ne_eq, not_true_eq_false, if_false,
    Bool.not_true, Bool.false_eq_true]
  rcases wait_cases op s with ⟨mid, irqs, -, hw⟩ | ⟨irqs, hw, -, -, -⟩
  · rw [hw]
  · rw [hw]
    simp only
    rw [haddr, hlen, eraseInt_at ctx hc]

/-- An undisturbed erase. -/
theorem erase_plain (h : ctx.check start_address len = none) (hchip : ¬ ctx.WholeChip start_address len) :
    (halNorflashEraseInt ctx start_address len false s).1 = .ok ∧
    (halNorflashEraseInt ctx start_address len false s).2.suspend_state = .none ∧
    (halNorflashEraseInt ctx start_address len false s).2.flash =
      finishAll (allPieces ctx.eraseSize eraseOp (ctx.eraseStart start_address len)) s.flash := by
  obtain ⟨c', s', hloop, hflash⟩ := pieceLoop_plain ctx.eraseSize eraseOp
    (fun c size => norflashErase c.current_address size false) (fun _ _ => rfl)
    (ctx.alignLen start_address len) (ctx.eraseStart start_address len) s
  rw [eraseInt_pieces ctx false h hchip, hloop]
  exact ⟨rfl, rfl, hflash⟩

/-- The start of an erase of less than the chip is a place of it. -/
theorem InErase.start (h : ctx.check start_address len = none) (hchip : ¬ ctx.WholeChip start_address len) :
    InErase ctx (start_address - start_address % addrRange)
      (ctx.alignStart start_address % addrRange + ctx.alignLen start_address len) (ctx.eraseStart start_address len) := by
  obtain ⟨haddr, hlen⟩ := (check_none ctx).1 h
  have hsector : start_address % addrRange % ctx.sector_size = start_address % ctx.sector_size :=
    Nat.mod_mod_of_dvd _ (sector_range ctx)
  have hle := Nat.mod_le (start_address % addrRange) ctx.sector_size
  have hle' := Nat.mod_le start_address addrRange
  have htotal := ctx.total_le
  have hbase : (start_address - start_address % addrRange) % addrRange = 0 :=
    Nat.mod_eq_zero_of_dvd (Nat.dvd_sub_mod _)
  have halign : ctx.alignStart start_address = (start_address - start_address % addrRange) +
      (start_address % addrRange - start_address % ctx.sector_size) := by
    unfold Ctx.alignStart
    omega
  have hoffset : ctx.alignStart start_address % addrRange =
      start_address % addrRange - start_address % ctx.sector_size := by
    rw [halign, Nat.add_mod, hbase, Nat.zero_add, Nat.mod_mod, Nat.mod_eq_of_lt]
    omega
  obtain ⟨hdvd, hround⟩ := alignLen_spec ctx start_address len
  have hstop : ctx.alignStart start_address % addrRange + ctx.alignLen start_address len ≤ ctx.total_size := by
    apply le_of_dvd_of_lt _ (sector_total ctx)
    · rw [hoffset]
      omega
    · rw [hoffset, ← hsector]
      exact Nat.dvd_add (Nat.dvd_sub_mod _) hdvd
  refine ⟨⟨hbase, hstop, _, by rw [hoffset]; exact halign, rfl⟩, Nat.dvd_sub_mod _, hdvd, ?_, rfl⟩
  apply Nat.lt_of_not_le
  intro hge
  exact hchip ⟨by simp only [Ctx.eraseStart] at hge; omega, hge⟩

/-- `hal_norflash_erase_int` behind its check, for the whole chip. -/
theorem eraseInt_chip (suspend : Bool) (h : ctx.check start_address len = none) (hchip : ctx.WholeChip start_address len) :
    halNorflashEraseInt ctx start_address len suspend s =
      saveErase ((statusWip1Wait (.erase 0 ctx.total_size) suspend s).1, ctx.eraseStart start_address len,
        (statusWip1Wait (.erase 0 ctx.total_size) suspend s).2) := by
  have hzero := hchip.1
  unfold Ctx.WholeChip at hchip
  simp only [halNorflashEraseInt, h, norflashErase]
  rw [if_pos hchip, hzero]
  rfl

/-- What is saved of a suspended erase of the chip, is an erase of the chip. -/
structure ChipHeld (s : Flash) : Prop where
  state : s.suspend_state = .erase
  addr : s.op_next_addr % addrRange = 0
  len : s.op_remain_len = ctx.total_size
  chip : s.chipOp = some (.erase 0 ctx.total_size)

theorem ChipHeld.whole (h : ChipHeld ctx s) : ctx.check s.op_next_addr s.op_remain_len = none ∧
    ctx.alignStart s.op_next_addr = s.op_next_addr ∧ ctx.alignLen s.op_next_addr s.op_remain_len = ctx.total_size := by
  have haddr : s.op_next_addr % ctx.sector_size = 0 :=
    Nat.mod_eq_zero_of_dvd (Nat.dvd_trans (sector_range ctx) (Nat.dvd_of_mod_eq_zero h.addr))
  have htotal := Nat.mod_eq_zero_of_dvd (sector_total ctx)
  refine ⟨(check_none ctx).2 ⟨?_, ?_⟩, ?_, ?_⟩
  · rw [h.addr]
    exact ctx.total_pos
  · rw [h.addr, h.len, Nat.sub_zero]
  · rw [Ctx.alignStart, haddr, Nat.sub_zero]
  · simp only [Ctx.alignLen, haddr, h.len, Nat.add_zero, htotal, ne_eq, not_true_eq_false, if_false]

theorem erase_erase (f : Mem) (base len : Nat) : erase (erase f base len) base len = erase f base len := by
  funext a
  unfold erase
  split <;> rfl

/-- An erase of the chip is done again after each suspension, and is then the
same as done once. -/
theorem chip_resumed (fuel : Nat) (hmode : ctx.mode_suspend = true) (hs : ChipHeld ctx s)
    (hfuel : s.irqs.length < fuel) :
    EndsAs False (erase s.flash 0 ctx.total_size) (resumeAll (halNorflashEraseResume ctx true) fuel (.suspended, s)) := by
  induction fuel generalizing s with
  | zero => omega
  | succ fuel ih =>
    obtain ⟨hcheck, hstart, hlen⟩ := hs.whole
    have hwhole : ctx.WholeChip s.op_next_addr s.op_remain_len := ⟨by rw [hstart]; exact hs.addr, by rw [hlen]⟩
    -- what is suspended once more
    have hagain : ∀ s', ChipHeld ctx s' → s'.irqs.length < fuel → ∀ mid, s'.flash = erasePart s.flash 0 ctx.total_size mid ∨
        s'.flash = erasePart (erase s.flash 0 ctx.total_size) 0 ctx.total_size mid →
        EndsAs False (erase s.flash 0 ctx.total_size)
          (resumeAll (halNorflashEraseResume ctx true) fuel (.suspended, s')) := by
      intro s' hs' hlt mid hflash
      have hnext := ih hs' hlt
      have hfin := finish_part (.erase 0 ctx.total_size)
      simp only [ChipOp.finish, ChipOp.part] at hfin
      rcases hflash with hf | hf
      · rwa [hf, hfin] at hnext
      · rwa [hf, hfin, erase_erase] at hnext
    simp only [resumeAll, halNorflashEraseResume, hs.state, hmode, norflashResume, hs.chip, ne_eq, not_true_eq_false,
      if_false, Bool.not_true, Bool.false_eq_true]
    rcases wait_cases (.erase 0 ctx.total_size) s with ⟨mid, irqs, hirqs, hw⟩ | ⟨irqs, hw, hle, -, -⟩
    · rw [hw]
      rw [hirqs] at hfuel
      exact hagain _ ⟨hs.state, hs.addr, hs.len, rfl⟩ (Nat.lt_of_succ_lt_succ hfuel) mid (.inl rfl)
    · rw [hw]
      simp only
      rw [eraseInt_chip ctx true hcheck hwhole]
      rcases wait_cases (.erase 0 ctx.total_size)
        { s with flash := (ChipOp.erase 0 ctx.total_size).finish s.flash, chipOp := none, irqs := irqs } with
        ⟨mid, irqs', hirqs, hw'⟩ | ⟨irqs', hw', -, -, -⟩
      · rw [hw']
        simp only at hirqs
        rw [hirqs, List.length_cons] at hle
        exact hagain _ ⟨rfl, hwhole.1, hlen, rfl⟩ (by simp only; omega) mid (.inr rfl)
      · rw [hw']
        simp only [saveErase]
        rw [resumeAll_other (by simp)]
        exact ⟨False.elim, fun _ => ⟨rfl, rfl, erase_erase _ _ _⟩⟩

/-! ## Write -/

theorem writeSize_le (c : Cursor) : ctx.writeSize c ≤ c.remain_len ∧ ctx.writeSize c ≤ ctx.page_size := by
  simp only [Ctx.writeSize]
  split <;> split <;> omega

theorem writeSize_pos (c : Cursor) (h : c.remain_len > 0) : 0 < ctx.writeSize c := by
  have hpage := Nat.mod_lt c.current_address ctx.page_pos
  have hpos := ctx.page_pos
  simp only [Ctx.writeSize]
  split <;> split <;> omega

/-- A piece is never too long for the driver. -/
theorem norflashWrite_piece (c : Cursor) (suspend : Bool) (s : Flash) :
    norflashWrite c.current_address c.current_buffer (ctx.writeSize c) suspend s =
      statusWip1Wait (writeOp c (ctx.writeSize c)) suspend s := by
  have hpage := (writeSize_le ctx c).2
  have hmax := ctx.page_le
  rw [norflashWrite, if_neg (by omega), writeOp]

/-- `hal_norflash_write_int` where a write goes on. -/
theorem writeInt_at (h : Within ctx base stop c) :
    halNorflashWriteInt ctx c.current_address c.current_buffer c.remain_len true s =
    if c.remain_len = 0 ∧ ctx.ToEnd stop then (.badAddr, s)
    else saveWrite (pieceLoop ctx.writeSize
      (fun c size => norflashWrite c.current_address c.current_buffer size true) c.remain_len c s) := by
  have hcheck := h.check
  by_cases hend : c.remain_len = 0 ∧ ctx.ToEnd stop
  · rw [if_pos hend] at hcheck ⊢
    simp only [halNorflashWriteInt, hcheck]
  · rw [if_neg hend] at hcheck ⊢
    simp only [halNorflashWriteInt, hcheck]

/-- What a write saves. -/
def WriteSaved (c : Cursor) (s : Flash) : Prop :=
  s.suspend_state = .program ∧ s.op_next_addr = c.current_address ∧ s.op_next_buf = c.current_buffer ∧
  s.op_remain_len = c.remain_len

theorem saveWrite_spec : SaveSpec saveWrite WriteSaved :=
  ⟨fun _ _ => rfl, fun _ _ => ⟨_, rfl, ⟨rfl, rfl, rfl, rfl⟩, rfl, rfl, rfl⟩, fun _ _ _ _ _ h => h⟩

theorem write_resumable (hmode : ctx.mode_suspend = true) (base stop : Nat) :
    Resumable ctx.writeSize writeOp (fun c size => norflashWrite c.current_address c.current_buffer size true) saveWrite
      WriteSaved (halNorflashWriteResume ctx true) (Within ctx base stop) (ctx.ToEnd stop) := by
  refine ⟨saveWrite_spec, fun c s _ _ => norflashWrite_piece ctx c true s, writeSize_pos ctx,
    fun c hc _ => hc.next ctx (writeSize_le ctx c).1, ?_⟩
  intro c op s hc hheld
  obtain ⟨hstate, haddr, hbuf, hlen⟩ := hheld.saved
  simp only [halNorflashWriteResume, hstate, hmode, norflashResume, hheld.chip, ne_eq, not_true_eq_false, if_false,
    Bool.not_true, Bool.false_eq_true]
  rcases wait_cases op s with ⟨mid, irqs, -, hw⟩ | ⟨irqs, hw, -, -, -⟩
  · rw [hw]
  · rw [hw]
    simp only
    rw [haddr, hbuf, hlen, writeInt_at ctx hc]

/-- An undisturbed write. -/
theorem write_plain (buffer : Nat → UInt8) (h : ctx.check start_address len = none) :
    (halNorflashWriteInt ctx start_address buffer len false s).1 = .ok ∧
    (halNorflashWriteInt ctx start_address buffer len false s).2.suspend_state = .none ∧
    (halNorflashWriteInt ctx start_address buffer len false s).2.flash =
      finishAll (allPieces ctx.writeSize writeOp ⟨start_address, buffer, len⟩) s.flash := by
  obtain ⟨c', s', hloop, hflash⟩ := pieceLoop_plain ctx.writeSize writeOp
    (fun c size => norflashWrite c.current_address c.current_buffer size false)
    (fun c s => norflashWrite_piece ctx c false s) len ⟨start_address, buffer, len⟩ s
  simp only [halNorflashWriteInt, h]
  rw [hloop]
  exact ⟨rfl, rfl, hflash⟩

/-! ## Whole operations -/

theorem EndsAs.transparent {bad : Prop} {r plain : Ret × Flash} (h : EndsAs bad plain.2.flash r) :
    Transparent r plain ↔ ¬ bad := by
  constructor
  · intro ht hbad
    have := ht.1.symm.trans (h.1 hbad)
    cases this
  · exact h.2

/-- A range that does not fit is refused, before anything is done. -/
theorem not_transparent (plain : Ret × Flash) (resume : Flash → Ret × Flash) (fuel : Nat) (s : Flash)
    (h : start_address % addrRange < ctx.total_size) (hlen : ¬ len ≤ ctx.total_size - start_address % addrRange) :
    ctx.check start_address len = some .badLen ∧ ¬ Transparent (resumeAll resume fuel (.badLen, s)) plain := by
  constructor
  · rw [Ctx.check, if_neg (by omega), if_pos (by omega)]
  · rw [resumeAll_other (by simp)]
    intro ht
    cases ht.1

theorem halNorflashErase_eq (hs : s.suspend_state = .none) :
    halNorflashErase ctx start_address len s = halNorflashEraseInt ctx start_address len false s := by
  simp only [halNorflashErase, halNorflashEraseSuspend, hs, ne_eq, not_true_eq_false, if_false, Bool.false_and]

/-- Without suspension an operation is its first call. -/
theorem EndsAs.of_ok {bad : Prop} {resume : Flash → Ret × Flash} {fuel : Nat} {r : Ret × Flash} (hbad : ¬ bad)
    (h : r.1 = .ok ∧ r.2.suspend_state = .none) : EndsAs bad r.2.flash (resumeAll resume fuel r) := by
  rw [resumeAll_other (by rw [h.1]; simp)]
  exact ⟨fun hb => absurd hb hbad, fun _ => ⟨h.1, h.2, rfl⟩⟩

theorem chip_plain (h : ctx.check start_address len = none) (hchip : ctx.WholeChip start_address len) :
    (halNorflashEraseInt ctx start_address len false s).1 = .ok ∧
    (halNorflashEraseInt ctx start_address len false s).2.suspend_state = .none ∧
    (halNorflashEraseInt ctx start_address len false s).2.flash = erase s.flash 0 ctx.total_size := by
  rw [eraseInt_chip ctx false h hchip]
  exact ⟨rfl, rfl, rfl⟩

theorem chip_started (hmode : ctx.mode_suspend = true) (h : ctx.check start_address len = none)
    (hchip : ctx.WholeChip start_address len) : EndsAs False (erase s.flash 0 ctx.total_size)
      (resumeAll (halNorflashEraseResume ctx true) s.irqs.length (halNorflashEraseInt ctx start_address len true s)) := by
  have hlen : ctx.alignLen start_address len = ctx.total_size := by
    have hstop := (check_none ctx).1 h
    obtain ⟨hdvd, hround⟩ := alignLen_spec ctx start_address len
    have hle := hchip.2
    have hmod : start_address % addrRange % ctx.sector_size = start_address % ctx.sector_size :=
      Nat.mod_mod_of_dvd _ (sector_range ctx)
    have := Nat.mod_le (start_address % addrRange) ctx.sector_size
    exact Nat.le_antisymm (le_of_dvd_of_lt hdvd (sector_total ctx) (by omega)) hle
  rw [eraseInt_chip ctx true h hchip]
  rcases wait_cases (.erase 0 ctx.total_size) s with ⟨mid, irqs, hirqs, hw⟩ | ⟨irqs, hw, -, -, -⟩
  · rw [hw, hirqs]
    have hend := chip_resumed ctx (irqs.length + 1) hmode
      (s := { s with
        flash := erasePart s.flash 0 ctx.total_size mid
        chipOp := some (.erase 0 ctx.total_size)
        irqs := irqs
        suspend_state := .erase
        op_next_addr := ctx.alignStart start_address
        op_remain_len := ctx.alignLen start_address len })
      ⟨rfl, hchip.1, hlen, rfl⟩ (Nat.lt_succ_self _)
    have hfin := finish_part (.erase 0 ctx.total_size) s.flash mid
    simp only [ChipOp.finish, ChipOp.part] at hfin
    rw [hfin] at hend
    exact hend
  · rw [hw]
    simp only [saveErase]
    rw [resumeAll_other (by simp)]
    exact ⟨False.elim, fun _ => ⟨rfl, rfl, rfl⟩⟩

theorem eraseAll_ends (hs : s.suspend_state = .none) (h : ctx.check start_address len = none) :
    EndsAs (ctx.EraseCut start_address len s.irqs) (halNorflashErase ctx start_address len s).2.flash
      (eraseAll ctx start_address len s) := by
  rw [halNorflashErase_eq ctx hs, eraseAll, halNorflashEraseSuspend, if_neg (fun hne => hne hs), Bool.true_and]
  by_cases hchip : ctx.WholeChip start_address len
  · obtain ⟨hok, hnone, hflash⟩ := chip_plain ctx (s := s) h hchip
    cases hmode : ctx.mode_suspend with
    | false => exact EndsAs.of_ok (fun hcut => hcut.2.1 hchip) ⟨hok, hnone⟩
    | true =>
      rw [hflash]
      exact (chip_started ctx hmode h hchip).congr ⟨fun hcut => hcut.2.1 hchip, False.elim⟩
  · obtain ⟨hok, hnone, hflash⟩ := erase_plain ctx (s := s) h hchip
    cases hmode : ctx.mode_suspend with
    | false => exact EndsAs.of_ok (fun hcut => absurd (hmode.symm.trans hcut.1) (by simp)) ⟨hok, hnone⟩
    | true =>
      have hends := resumeAll_started (s := s) (erase_resumable ctx hmode _ _) (InErase.start ctx h hchip)
      rw [hflash, eraseInt_pieces ctx true h hchip]
      apply hends.congr
      unfold Ctx.EraseCut
      simp only [hmode, hchip, not_false_eq_true, true_and]

theorem writeAll_ends {buffer : Nat → UInt8} (hs : s.suspend_state = .none)
    (h : ctx.check start_address len = none) :
    EndsAs (ctx.WriteCut start_address buffer len s.irqs) (halNorflashWrite ctx start_address buffer len s).2.flash
      (writeAll ctx start_address buffer len s) := by
  simp only [halNorflashWrite, writeAll, halNorflashWriteSuspend, hs, ne_eq, not_true_eq_false, if_false,
    Bool.false_and, Bool.true_and]
  obtain ⟨hok, hnone, hflash⟩ := write_plain ctx (s := s) buffer h
  cases hmode : ctx.mode_suspend with
  | false => exact EndsAs.of_ok (fun hcut => absurd (hmode.symm.trans hcut.1) (by simp)) ⟨hok, hnone⟩
  | true =>
    have hends := resumeAll_started (s := s) (write_resumable ctx hmode _ _) (Within.start ctx buffer h)
    rw [hflash]
    have hint : halNorflashWriteInt ctx start_address buffer len true s =
        saveWrite (pieceLoop ctx.writeSize (fun c size => norflashWrite c.current_address c.current_buffer size true) len
          ⟨start_address, buffer, len⟩ s) := by
      simp only [halNorflashWriteInt, h]
    rw [hint]
    apply hends.congr
    unfold Ctx.WriteCut
    simp only [hmode, true_and]

/-- A suspended and resumed erase or write is as an undisturbed one, exactly if
it fits in the device and is not suspended in the last piece before the end
of the device. -/
theorem suspension_transparent (ctx : Ctx) (start_address len : Nat) (buffer : Nat → UInt8) (s : Flash)
    (hs : s.suspend_state = .none) (haddr : start_address % addrRange < ctx.total_size) :
    (Transparent (eraseAll ctx start_address len s) (halNorflashErase ctx start_address len s) ↔
      len ≤ ctx.total_size - start_address % addrRange ∧ ¬ ctx.EraseCut start_address len s.irqs) ∧
    (Transparent (writeAll ctx start_address buffer len s) (halNorflashWrite ctx start_address buffer len s) ↔
      len ≤ ctx.total_size - start_address % addrRange ∧ ¬ ctx.WriteCut start_address buffer len s.irqs) := by
  by_cases hlen : len ≤ ctx.total_size - start_address % addrRange
  · have hcheck := (check_none ctx).2 ⟨haddr, hlen⟩
    rw [(eraseAll_ends ctx hs hcheck).transparent, (writeAll_ends ctx hs hcheck).transparent]
    exact ⟨(and_iff_right hlen).symm, (and_iff_right hlen).symm⟩
  · refine ⟨⟨fun ht => absurd ht ?_, fun h => absurd h.1 hlen⟩, ⟨fun ht => absurd ht ?_, fun h => absurd h.1 hlen⟩⟩
    · have hbad := not_transparent ctx (halNorflashErase ctx start_address len s)
        (halNorflashEraseResume ctx true) s.irqs.length s haddr hlen
      simp only [eraseAll, halNorflashEraseSuspend, hs, halNorflashEraseInt, hbad.1, ne_eq, not_true_eq_false, if_false]
      exact hbad.2
    · have hbad := not_transparent ctx (halNorflashWrite ctx start_address buffer len s)
        (halNorflashWriteResume ctx true) s.irqs.length s haddr hlen
      simp only [writeAll, halNorflashWriteSuspend, hs, halNorflashWriteInt, hbad.1, ne_eq, not_true_eq_false, if_false]
      exact hbad.2

theorem smallPage_pos : 0 < 4 := by decide

/-- A device of four sectors of 8 bytes, two blocks, with pages of 4 bytes. -/
def smallCtx : Ctx where
  total_size := 32
  block_size := 16
  sector_size := 8
  page_size := 4
  mode_suspend := true
  total_pos := by decide
  total_le := by decide
  sector_pos := by decide
  sector_block := by decide
  block_total := by decide
  block_range := by decide
  page_pos := smallPage_pos
  page_le := by decide

/-- A programmed device, idle, with the interrupts `irqs` to come. -/
def idle (irqs : List (Option Mem)) : Flash where
  flash _ := 0
  chipOp := none
  suspend_state := .none
  op_next_addr := 0
  op_next_buf _ := 0
  op_remain_len := 0
  irqs := irqs

theorem suspension_transparent_small :
    smallCtx.total_size = 32 ∧
    (Transparent (eraseAll smallCtx 8 24 (idle [some fun _ => 7, none, some fun _ => 9]))
        (halNorflashErase smallCtx 8 24 (idle [some fun _ => 7, none, some fun _ => 9])) ↔
      24 ≤ smallCtx.total_size - 8 % addrRange ∧
        ¬ smallCtx.EraseCut 8 24 [some fun _ => 7, none, some fun _ => 9]) ∧
    (Transparent (writeAll smallCtx 8 (fun _ => 1) 24 (idle [some fun _ => 7, none, some fun _ => 9]))
        (halNorflashWrite smallCtx 8 (fun _ => 1) 24 (idle [some fun _ => 7, none, some fun _ => 9])) ↔
      24 ≤ smallCtx.total_size - 8 % addrRange ∧
        ¬ smallCtx.WriteCut 8 (fun _ => 1) 24 [some fun _ => 7, none, some fun _ => 9]) :=
  ⟨rfl, suspension_transparent smallCtx 8 24 (fun _ => 1) (idle [some fun _ => 7, none, some fun _ => 9]) rfl (by decide)⟩

/-- The last sector of the device: suspended once, its erase is refused on
resuming, and the state stays `ERASE`. -/
theorem last_sector_refused :
    24 % addrRange < smallCtx.total_size ∧ 8 ≤ smallCtx.total_size - 24 % addrRange ∧
    (idle [some fun _ => 0]).suspend_state = .none ∧
    (eraseAll smallCtx 24 8 (idle [some fun _ => 0])).1 = .badAddr ∧
    (eraseAll smallCtx 24 8 (idle [some fun _ => 0])).2.suspend_state = .erase ∧
    ¬ Transparent (eraseAll smallCtx 24 8 (idle [some fun _ => 0]))
      (halNorflashErase smallCtx 24 8 (idle [some fun _ => 0])) := by
  refine ⟨by decide, by decide, rfl, by decide, by decide, ?_⟩
  intro ht
  exact absurd ht.1 (by decide)

end Hal.Norflash
