import LittleBuddy.Lib.Runs
import LittleBuddy.LogSection.Output
/-!
# The log reaches the flash

As long as every output comes at a sector border of the flash and leaves a
buffer that is not full, `log_dump_flush_all` returns and the log is in the flash.
-/
open Cursor NorMem Runs

namespace LogDump

inductive Event where
  | output (own : Bool) (buf : List UInt8)
  | flush (answers : List Bool)
  | flushAll (fuel : Nat) (answers : List Bool)

def step (flash_len : Nat) : Event → Sys → Option Sys
  | .output own buf, s =>
    (logDumpOutputHandler own buf s.log).map fun log => { log, logged := if own then s.logged else s.logged ++ buf }
  | .flush answers, s => (logDumpFlush flash_len answers s.log).map fun log => { s with log }
  | .flushAll fuel answers, s => (logDumpFlushAll flash_len fuel answers s.log).map fun log => { s with log }

/-- After `log_dump_init`, where the log area holds an earlier log: the last of
its sectors, of which the first may be erased already. -/
def Booted (count : Nat) (earlier : List (List UInt8)) (s : Sys) : Prop :=
  ∃ flash spare, LogArea count flash earlier spare ∧ spare ≤ 1 ∧ spare < count ∧ earlier.length ≤ UInt32.size ∧
    s = ⟨logDumpInit (count * sectorSize) flash, []⟩

/-- An output comes at a sector border, and does not fill the last buffer. -/
def Fits (e : Event) (s : Sys) : Prop :=
  match e with
  | .output false buf => s.log.flash_offs % sectorSize = 0 ∧
      gap sectorBufferCount s.log.f_seqnum s.log.w_seqnum + buffersFilled s.log buf.length < sectorBufferCount
  | _ => True

variable {count : Nat} {earlier : List (List UInt8)} {s : Log} {S : Sys}

/-! ## Every run -/

theorem booted_inv (S : Sys) (h : Booted count earlier S) : Inv count earlier S := by
  obtain ⟨flash, spare, harea, hspare, hlt, hlen, rfl⟩ := h
  have hseqnum := getSeqnum_eq harea hlt hlen
  have hcount : count * sectorSize / sectorSize = count := Nat.mul_div_cancel _ (by decide)
  refine .inl ⟨[], [], none, ?_⟩
  exact {
    logged := rfl
    full_len := by simp
    part_len := by simp
    buffers := by
      refine ⟨Nat.zero_lt_succ _, Nat.zero_lt_succ _, rfl, by simp [sectors], _, rfl, fun b hb => ?_⟩
      obtain ⟨i, -, -, rfl⟩ := (mem_cells (Nat.zero_lt_succ _) (Nat.le_refl _)).1 hb
      rfl
    seqnum := by
      dsimp only [logDumpInit]
      rw [hcount, hseqnum]
      rfl
    bootup := rfl
    area := by
      rw [sectors, List.append_nil]
      refine ⟨?_, ⟨spare, hspare, fun hne => absurd rfl hne, harea⟩, fun hne => absurd rfl hne⟩
      dsimp only [logDumpInit]
      rw [hcount, hseqnum]
      rfl }

/-- An output that fits does not trip the assertion. -/
theorem Inv.output (h : Inv count earlier S) {own : Bool} {buf : List UInt8} (hfits : Fits (.output own buf) S) :
    ∃ S', step (count * sectorSize) (.output own buf) S = some S' ∧ Inv count earlier S' := by
  cases own with
  | true => exact ⟨S, rfl, h⟩
  | false =>
    obtain ⟨haligned, hroom⟩ := hfits
    rcases h with ⟨written, full, part, h⟩ | h
    · rw [h.buffers.gap_eq, length_sectors, buffersFilled, h.room_eq] at hroom
      obtain ⟨log, hlog, hinv⟩ := h.outputLoop (Nat.lt_succ_self buf.length) hroom
      refine ⟨_, ?_, hinv⟩
      rw [step, logDumpOutputHandler, if_neg Bool.false_ne_true, hlog]
      rfl
    · exact absurd haligned h.unaligned

theorem step_inv (hcount : 0 < count) (e : Event) (S S' : Sys) (h : Inv count earlier S) (hfits : Fits e S)
    (hs : step (count * sectorSize) e S = some S') : Inv count earlier S' := by
  cases e with
  | output own buf =>
    obtain ⟨S₁, hS₁, hinv⟩ := h.output hfits
    rw [hS₁] at hs
    obtain rfl := Option.some.inj hs
    exact hinv
  | flush answers =>
    obtain ⟨log, hlog, rfl⟩ := Option.map_eq_some_iff.1 hs
    obtain ⟨⟨rest, log'⟩, hstep, rfl⟩ := Option.map_eq_some_iff.1 hlog
    exact h.flushStep hcount (by decide) (by decide) hstep
  | flushAll fuel answers =>
    obtain ⟨log, hlog, rfl⟩ := Option.map_eq_some_iff.1 hs
    exact (flushRemain_inv (S := ⟨{ S.log with is_immediately := true }, S.logged⟩) hcount h.immediately hlog).1

/-- In every run whose outputs fit, `log_dump_flush_all` ends if the norflash
layer has room again and again, and then the log is in the flash. -/
theorem flush_all_ends {s : Sys} {evs : List Event}
    (hrun : Run (step (count * sectorSize)) Fits (Booted count earlier) s evs) :
    (∀ st, Accepting st → ∃ fuel k log, logDumpFlushAll (count * sectorSize) fuel (answersOf st k) s.log = some log ∧
      Flushed count earlier s.logged log) ∧
    ∀ own buf, Fits (.output own buf) s → ∃ s', step (count * sectorSize) (.output own buf) s = some s' := by
  have hcount : 0 < count := by
    refine hrun.inv (fun _ => 0 < count) ?_ (fun _ _ _ h _ _ => h)
    rintro _ ⟨_, _, -, -, hlt, -⟩
    exact Nat.zero_lt_of_lt hlt
  have hinv := hrun.inv (Inv count earlier) booted_inv (step_inv hcount)
  refine ⟨fun st hst => hinv.flushAll_ends hcount hst, fun own buf hfits => ?_⟩
  obtain ⟨s', hs', -⟩ := hinv.output hfits
  exact ⟨s', hs'⟩

instance (e : Event) (s : Sys) : Decidable (Fits e s) :=
  match e with
  | .output false _ => inferInstanceAs (Decidable (_ ∧ _))
  | .output true _ | .flush _ | .flushAll _ _ => isTrue trivial

/-- An area of four sectors that was never written. -/
def unwritten : Mem := fun _ => 0xff

theorem booted_unwritten : Booted 4 [] ⟨logDumpInit (4 * sectorSize) unwritten, []⟩ := by
  refine ⟨unwritten, 0, ⟨⟨by simp, by simp⟩, by simp [Numbered], fun j _ _ => ?_⟩, Nat.zero_le 1, by decide, by simp, rfl⟩
  exact readHeader_erased fun _ _ => rfl

/-- Two outputs with a flush step in between: afterwards the log is in the flash. -/
theorem flush_all_ends_two : ∃ s evs, Run (step (4 * sectorSize)) Fits (Booted 4 []) s evs ∧
    ∃ fuel k log, logDumpFlushAll (4 * sectorSize) fuel (answersOf (fun _ => true) k) s.log = some log ∧
      Flushed 4 [] [65, 66] log := by
  obtain ⟨s, hrun, hgood⟩ := exists_run_of_check (step (4 * sectorSize)) Fits (Booted 4 [])
    (some ⟨logDumpInit (4 * sectorSize) unwritten, []⟩) [.output false [65], .flush [true], .output false [66]]
    (fun s => s.logged = [65, 66]) (by rintro _ ⟨⟩; exact booted_unwritten) (by decide +kernel)
  refine ⟨s, _, hrun, ?_⟩
  rw [← of_decide_eq_true hgood]
  exact (flush_all_ends hrun).1 _ fun n => ⟨n, le_rfl, rfl⟩

/-! ## The loop that does not end -/

/-- In an idle state away from a sector border the loop of `_log_dump_flush_remain` does nothing. -/
theorem flushRemain_stuck {flash_len : Nat} (hidle : s.flash_state = .idle) (hoffs : s.flash_offs % sectorSize ≠ 0)
    (hbusy : allFree s = false) (fuel : Nat) (answers : List Bool) : flushRemain flash_len fuel answers s = none := by
  induction fuel with
  | zero => rfl
  | succ fuel ih =>
    have hskip : flushStep flash_len (· ≠ .free) false answers s = some (answers, s) := by
      rw [flushStep, if_neg (fun h => hoffs h.2), if_neg]
      rw [hidle]
      decide
    rw [flushRemain, hbusy, if_neg Bool.false_ne_true, hskip]
    exact ih

/-- A byte is logged and all is flushed, another byte is logged and all is
flushed again: the second call does not return. And after an output that fills
all four buffers the oldest of them is written behind the three others. -/
theorem flush_all_hangs :
    (∃ s evs, Run (step (4 * sectorSize)) (fun _ _ => True) (Booted 4 []) s evs ∧
      ∀ fuel answers, logDumpFlushAll (4 * sectorSize) fuel answers s.log = none) ∧
    ∃ s evs, Run (step (4 * sectorSize)) (fun _ _ => True) (Booted 4 []) s evs ∧
      (List.range 4).map (readHeader s.log.flash) = [some 1, some 2, some 3, some 0] := by
  constructor
  · obtain ⟨s, hrun, hgood⟩ := exists_run_of_check (step (4 * sectorSize)) (fun _ _ => True) (Booted 4 [])
      (some ⟨logDumpInit (4 * sectorSize) unwritten, []⟩)
      [.output false [65], .flushAll 3 [true, true, true], .output false [66]]
      (fun s => s.log.flash_state = .idle ∧ s.log.flash_offs % sectorSize ≠ 0 ∧ allFree s.log = false)
      (by rintro _ ⟨⟩; exact booted_unwritten) (by decide +kernel)
    obtain ⟨hidle, hoffs, hbusy⟩ := of_decide_eq_true hgood
    exact ⟨s, _, hrun, flushRemain_stuck (s := { s.log with is_immediately := true }) hidle hoffs hbusy⟩
  · obtain ⟨s, hrun, hgood⟩ := exists_run_of_check (step (4 * sectorSize)) (fun _ _ => True) (Booted 4 [])
      (some ⟨logDumpInit (4 * sectorSize) unwritten, []⟩)
      [.output false (List.replicate (4 * payloadLen) 65), .flushAll 10 (List.replicate 10 true)]
      (fun s => (List.range 4).map (readHeader s.log.flash) = [some 1, some 2, some 3, some 0])
      (by rintro _ ⟨⟩; exact booted_unwritten) (by decide +kernel)
    exact ⟨s, _, hrun, of_decide_eq_true hgood⟩

end LogDump
