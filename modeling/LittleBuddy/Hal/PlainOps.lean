import LittleBuddy.Hal.Suspension
/-!
# Erasing a sector, writing a range

What `hal_norflash_erase` of a sector and `hal_norflash_write` do to the flash:
the check refuses what is not in the device, and both refuse while another
operation is suspended.
-/
open NorMem

namespace Hal.Norflash

variable (ctx : Ctx) {s : Flash} {start_address len : Nat}

/-- The pieces of a write are one program. -/
theorem finishAll_write {base stop : Nat} {c : Cursor} (h : Within ctx base stop c) (f : Mem) :
    finishAll (allPieces ctx.writeSize writeOp c) f =
      program f (c.current_address % addrRange) c.remain_len c.current_buffer := by
  generalize hn : c.remain_len = n
  induction n using Nat.strongRecOn generalizing c f with
  | ind n ih =>
    rcases Nat.eq_zero_or_pos n with rfl | hpos
    · rw [allPieces_zero hn, program_zero]
      rfl
    · have hsize := writeSize_pos ctx c (by omega)
      have hle := (writeSize_le ctx c).1
      have hnext := ih (c.remain_len - ctx.writeSize c) (by omega) (h.next ctx hle)
        ((writeOp c (ctx.writeSize c)).finish f) rfl
      obtain ⟨o, ho, hstop⟩ := h.at_offset
      have htotal := ctx.total_le
      have hstop' := h.stop_le
      have hmod : ∀ k, o + k < addrRange → (c.current_address + k) % addrRange = o + k := by
        intro k hk
        rw [ho, Nat.add_assoc, Nat.add_mod, h.base_mod, Nat.zero_add, Nat.mod_mod, Nat.mod_eq_of_lt hk]
      have hstart : c.current_address % addrRange = o := hmod 0 (by omega)
      rw [allPieces_pos (writeSize_pos ctx) (by omega), finishAll, List.foldl_cons]
      refine hnext.trans ?_
      simp only [Cursor.next, writeOp, ChipOp.finish, hstart]
      rcases Nat.eq_zero_or_pos (c.remain_len - ctx.writeSize c) with hzero | hmore
      · rw [hzero, program_zero]
        congr 1
        omega
      · rw [hmod _ (by omega), program_append]
        congr 1
        omega

/-- `hal_norflash_write` of a range of the device. -/
theorem halNorflashWrite_flash (buffer : Nat → UInt8) (hs : s.suspend_state = .none)
    (hin : start_address % addrRange + len ≤ ctx.total_size) (hlt : start_address % addrRange < ctx.total_size) :
    (halNorflashWrite ctx start_address buffer len s).2.flash =
        program s.flash (start_address % addrRange) len buffer ∧
      (halNorflashWrite ctx start_address buffer len s).2.suspend_state = .none := by
  have hcheck : ctx.check start_address len = none := (check_none ctx).2 ⟨hlt, by omega⟩
  obtain ⟨-, hnone, hflash⟩ := write_plain ctx (s := s) buffer hcheck
  simp only [halNorflashWrite, halNorflashWriteSuspend, hs, ne_eq, not_true_eq_false, if_false, Bool.false_and]
  exact ⟨hflash.trans (finishAll_write ctx (Within.start ctx buffer hcheck) s.flash), hnone⟩

/-- `hal_norflash_erase` of a sector of the device. -/
theorem halNorflashErase_sector (hs : s.suspend_state = .none) (hsector : ctx.sector_size ∣ start_address)
    (hlt : start_address % addrRange < ctx.total_size) :
    (halNorflashErase ctx start_address ctx.sector_size s).2.flash =
        erase s.flash (start_address % addrRange) ctx.sector_size ∧
      (halNorflashErase ctx start_address ctx.sector_size s).2.suspend_state = .none := by
  have hpos := ctx.sector_pos
  have hend : start_address % addrRange + ctx.sector_size ≤ ctx.total_size :=
    le_of_dvd_of_lt (Nat.dvd_add ((Nat.dvd_mod_iff (sector_range ctx)).2 hsector) (Nat.dvd_refl _))
      (sector_total ctx) (by omega)
  have hcheck : ctx.check start_address ctx.sector_size = none := (check_none ctx).2 ⟨hlt, by omega⟩
  have hmod := Nat.mod_eq_zero_of_dvd hsector
  have hstart : ctx.alignStart start_address = start_address := by rw [Ctx.alignStart, hmod, Nat.sub_zero]
  have hlen : ctx.alignLen start_address ctx.sector_size = ctx.sector_size := by
    simp only [Ctx.alignLen, hmod, Nat.add_zero, Nat.mod_self, ne_eq, not_true_eq_false, if_false]
  rw [halNorflashErase_eq ctx hs]
  by_cases hchip : ctx.WholeChip start_address ctx.sector_size
  · obtain ⟨-, hnone, hflash⟩ := chip_plain ctx (s := s) hcheck hchip
    -- a device of one sector
    have htotal : ctx.total_size = ctx.sector_size := by
      have := hchip.2
      omega
    have hzero : start_address % addrRange = 0 := hstart ▸ hchip.1
    rw [hflash, htotal, hzero]
    exact ⟨rfl, hnone⟩
  · obtain ⟨-, hnone, hflash⟩ := erase_plain ctx (s := s) hcheck hchip
    have hc : ctx.eraseStart start_address ctx.sector_size = ⟨start_address, fun _ => 0, ctx.sector_size⟩ := by
      rw [Ctx.eraseStart, hstart, hlen]
    have hsize : ctx.eraseSize ⟨start_address, fun _ => 0, ctx.sector_size⟩ = ctx.sector_size := by
      unfold Ctx.eraseSize
      split
      · rename_i hblock
        exact Nat.le_antisymm hblock.1 (Nat.le_of_dvd
          (Nat.pos_of_dvd_of_pos ctx.block_total ctx.total_pos) ctx.sector_block)
      · rfl
    have hpieces : allPieces ctx.eraseSize eraseOp (ctx.eraseStart start_address ctx.sector_size) =
        [.erase (start_address % addrRange) ctx.sector_size] := by
      rw [hc, allPieces_pos (eraseSize_pos ctx) hpos, hsize, allPieces_zero (Nat.sub_self _)]
      rfl
    rw [hflash, hpieces]
    exact ⟨rfl, hnone⟩

/-- What is not in the device is refused. -/
theorem halNorflash_outside (buffer : Nat → UInt8) (h : ctx.total_size ≤ start_address % addrRange) :
    (halNorflashErase ctx start_address len s).2 = s ∧ (halNorflashWrite ctx start_address buffer len s).2 = s := by
  have hcheck : ctx.check start_address len = some .badAddr := by rw [Ctx.check, if_pos h]
  constructor
  · rw [halNorflashErase, halNorflashEraseSuspend, halNorflashEraseInt, hcheck]
    split <;> rfl
  · rw [halNorflashWrite, halNorflashWriteSuspend, halNorflashWriteInt, hcheck]
    split <;> rfl

end Hal.Norflash
