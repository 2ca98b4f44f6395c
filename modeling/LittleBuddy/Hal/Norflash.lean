import Mathlib.Algebra.Group.Nat.Defs
import Mathlib.Data.Nat.Basic
import Mathlib.Tactic.Common
import LittleBuddy.Lib.NorMem
/-!
# Suspending an erase or a write

`hal_norflash_erase_suspend`, `hal_norflash_write_suspend` and their resume
functions of `platform/hal/hal_norflash.c`, over the commands of
`platform/drivers/norflash/norflash_drv.c`. An operation is cut into pieces, one
command each; a suspended piece is half done, and where to go on behind it is
saved.

Going on begins with the check of the address. It fails when the saved address
is the end of the device, which is where the last piece of a range up to there
leaves it.

The flash is built without `PUYA_FLASH_ERASE_PAGE_ENABLE`, as the Makefile of
the HAL builds it.
-/
open NorMem

namespace Hal.Norflash

/-- `HAL_NORFLASH_RET_T`, as far as it is used here. -/
inductive Ret where
  | ok | suspended | err | badOp | badAddr | badLen
  deriving DecidableEq

/-- `SUSPEND_STATE_T`. -/
inductive SuspendState where
  | none | erase | program
  deriving DecidableEq

/-- The range of `HAL_NORFLASH_ADDR_MASK`. -/
abbrev addrRange : Nat := 2 ^ 26

/-- `norflash_ctx[id]` of an opened device. Sizes are powers of two, so that
`x & (size - 1)` is a remainder. -/
structure Ctx where
  total_size : Nat
  block_size : Nat
  sector_size : Nat
  page_size : Nat
  /-- `HAL_NORFLASH_OP_MODE_SUSPEND` is supported. -/
  mode_suspend : Bool
  total_pos : 0 < total_size
  total_le : total_size ≤ addrRange
  sector_pos : 0 < sector_size
  sector_block : sector_size ∣ block_size
  block_total : block_size ∣ total_size
  block_range : block_size ∣ addrRange
  page_pos : 0 < page_size
  /-- `GD25Q32C_PAGE_SIZE`. -/
  page_le : page_size ≤ 256

/-- A command to the flash chip: `base` is an offset in the device. -/
inductive ChipOp where
  | erase (base len : Nat)
  | program (base len : Nat) (data : Nat → UInt8)

/-- What a command does, from any state in which it was suspended. -/
def ChipOp.finish : ChipOp → Mem → Mem
  | erase base len, f => NorMem.erase f base len
  | program base len data, f => NorMem.program f base len data

/-- A suspended command: `mid` is what it has got to. -/
def ChipOp.part : ChipOp → Mem → Mem → Mem
  | erase base len, f, mid => erasePart f base len mid
  | program base len data, f, mid => programPart f base len data mid

/-- The device, the variables of the HAL, and for each wait that may suspend
what interrupts do: `some mid` suspends the command. -/
structure Flash where
  flash : Mem
  chipOp : Option ChipOp
  suspend_state : SuspendState
  op_next_addr : Nat
  op_next_buf : Nat → UInt8
  op_remain_len : Nat
  irqs : List (Option Mem)

/-- `norflash_status_WIP_1_wait` of a command. -/
def statusWip1Wait (op : ChipOp) (suspend : Bool) (s : Flash) : Ret × Flash :=
  if suspend then
    match s.irqs with
    | some mid :: irqs => (.suspended, { s with flash := op.part s.flash mid, chipOp := some op, irqs := irqs })
    | none :: irqs => (.ok, { s with flash := op.finish s.flash, chipOp := none, irqs := irqs })
    | [] => (.ok, { s with flash := op.finish s.flash, chipOp := none })
  else (.ok, { s with flash := op.finish s.flash, chipOp := none })

/-- `norflash_erase`, of `size` bytes. -/
def norflashErase (start_address size : Nat) (suspend : Bool) (s : Flash) : Ret × Flash :=
  statusWip1Wait (.erase (start_address % addrRange) size) suspend s

/-- `norflash_write`. -/
def norflashWrite (start_address : Nat) (buffer : Nat → UInt8) (len : Nat) (suspend : Bool) (s : Flash) : Ret × Flash :=
  if len > 256 then (.err, s)
  else statusWip1Wait (.program (start_address % addrRange) len buffer) suspend s

/-- `norflash_erase_resume`, and `norflash_write_resume`, which calls it. -/
def norflashResume (suspend : Bool) (s : Flash) : Ret × Flash :=
  match s.chipOp with
  | some op => statusWip1Wait op suspend s
  | none => (.ok, s)

/-- Where a loop over pieces is. -/
structure Cursor where
  current_address : Nat
  current_buffer : Nat → UInt8
  remain_len : Nat

/-- A piece of `size` bytes is done, or suspended. -/
def Cursor.next (c : Cursor) (size : Nat) : Cursor :=
  ⟨c.current_address + size, fun j => c.current_buffer (size + j), c.remain_len - size⟩

/-- The loops of `hal_norflash_erase_int` and `hal_norflash_write_int`. The fuel is the
length at the start. -/
def pieceLoop (sizeOf : Cursor → Nat) (command : Cursor → Nat → Flash → Ret × Flash) :
    Nat → Cursor → Flash → Ret × Cursor × Flash
  | 0, c, s => (.ok, c, s)
  | fuel + 1, c, s =>
    if c.remain_len > 0 then
      match command c (sizeOf c) s with
      | (.ok, s) => pieceLoop sizeOf command fuel (c.next (sizeOf c)) s
      | (ret, s) => (ret, c.next (sizeOf c), s)
    else (.ok, c, s)

/-- What follows the loop of `hal_norflash_erase_int`. -/
def saveErase : Ret × Cursor × Flash → Ret × Flash
  | (.suspended, c, s) =>
    (.suspended, { s with
      suspend_state := .erase
      op_next_addr := c.current_address
      op_remain_len := c.remain_len })
  | (ret, _, s) => (ret, { s with suspend_state := .none })

/-- What follows the loop of `hal_norflash_write_int`. -/
def saveWrite : Ret × Cursor × Flash → Ret × Flash
  | (.suspended, c, s) =>
    (.suspended, { s with
      suspend_state := .program
      op_next_addr := c.current_address
      op_next_buf := c.current_buffer
      op_remain_len := c.remain_len })
  | (ret, _, s) => (ret, { s with suspend_state := .none })

variable (ctx : Ctx)

/-- The check of address and length, which is the same in all functions. -/
def Ctx.check (start_address len : Nat) : Option Ret :=
  if ctx.total_size ≤ start_address % addrRange then some .badAddr
  else if len > ctx.total_size - start_address % addrRange then some .badLen
  else none

/-- The piece that an erase takes next: a block where one fits, else a sector. -/
def Ctx.eraseSize (c : Cursor) : Nat :=
  if c.remain_len ≥ ctx.block_size ∧ c.current_address % ctx.block_size = 0 then ctx.block_size else ctx.sector_size

/-- The range of an erase, aligned to sectors. -/
def Ctx.alignStart (start_address : Nat) : Nat := start_address - start_address % ctx.sector_size

def Ctx.alignLen (start_address len : Nat) : Nat :=
  let len := len + start_address % ctx.sector_size
  if len % ctx.sector_size ≠ 0 then len + (ctx.sector_size - len % ctx.sector_size) else len

/-- `hal_norflash_erase_int`. Its loop has no buffer. -/
def halNorflashEraseInt (start_address len : Nat) (suspend : Bool) (s : Flash) : Ret × Flash :=
  match ctx.check start_address len with
  | some ret => (ret, s)
  | none =>
    let c : Cursor := ⟨ctx.alignStart start_address, fun _ => 0, ctx.alignLen start_address len⟩
    saveErase <|
      if c.current_address % addrRange = 0 ∧ c.remain_len ≥ ctx.total_size then
        let (ret, s) := norflashErase c.current_address ctx.total_size suspend s
        (ret, c, s)
      else
        pieceLoop ctx.eraseSize (fun c size => norflashErase c.current_address size suspend) c.remain_len c s

/-- `hal_norflash_erase_suspend`. -/
def halNorflashEraseSuspend (start_address len : Nat) (suspend : Bool) (s : Flash) : Ret × Flash :=
  if s.suspend_state ≠ .none then (.badOp, s)
  else halNorflashEraseInt ctx start_address len (suspend && ctx.mode_suspend) s

/-- `hal_norflash_erase`. -/
def halNorflashErase (start_address len : Nat) (s : Flash) : Ret × Flash :=
  halNorflashEraseSuspend ctx start_address len false s

/-- `hal_norflash_erase_resume`. -/
def halNorflashEraseResume (suspend : Bool) (s : Flash) : Ret × Flash :=
  if s.suspend_state ≠ .erase then (.badOp, s)
  else if !ctx.mode_suspend then (.badOp, s)
  else
    match norflashResume suspend s with
    | (.suspended, s) => (.suspended, s)
    | (_, s) => halNorflashEraseInt ctx s.op_next_addr s.op_remain_len suspend s

/-- The piece that a write takes next: up to the end of a page. -/
def Ctx.writeSize (c : Cursor) : Nat :=
  let write_size := if c.remain_len > ctx.page_size then ctx.page_size else c.remain_len
  let pp_remain := ctx.page_size - c.current_address % ctx.page_size
  if write_size > pp_remain then pp_remain else write_size

/-- `hal_norflash_write_int`. -/
def halNorflashWriteInt (start_address : Nat) (buffer : Nat → UInt8) (len : Nat) (suspend : Bool) (s : Flash) : Ret × Flash :=
  match ctx.check start_address len with
  | some ret => (ret, s)
  | none =>
    saveWrite <|
      pieceLoop ctx.writeSize (fun c size => norflashWrite c.current_address c.current_buffer size suspend) len
        ⟨start_address, buffer, len⟩ s

/-- `hal_norflash_write_suspend`. -/
def halNorflashWriteSuspend (start_address : Nat) (buffer : Nat → UInt8) (len : Nat) (suspend : Bool) (s : Flash) :
    Ret × Flash :=
  if s.suspend_state ≠ .none then (.badOp, s)
  else halNorflashWriteInt ctx start_address buffer len (suspend && ctx.mode_suspend) s

/-- `hal_norflash_write`. -/
def halNorflashWrite (start_address : Nat) (buffer : Nat → UInt8) (len : Nat) (s : Flash) : Ret × Flash :=
  halNorflashWriteSuspend ctx start_address buffer len false s

/-- `hal_norflash_write_resume`. -/
def halNorflashWriteResume (suspend : Bool) (s : Flash) : Ret × Flash :=
  if s.suspend_state ≠ .program then (.badOp, s)
  else if !ctx.mode_suspend then (.badOp, s)
  else
    match norflashResume suspend s with
    | (.suspended, s) => (.suspended, s)
    | (_, s) => halNorflashWriteInt ctx s.op_next_addr s.op_next_buf s.op_remain_len suspend s

/-- A caller that resumes until the answer is another one than `SUSPENDED`. -/
def resumeAll (resume : Flash → Ret × Flash) : Nat → Ret × Flash → Ret × Flash
  | fuel + 1, (.suspended, s) => resumeAll resume fuel (resume s)
  | _, r => r

/-- An erase that is suspended and resumed. Each call but the last one takes an
interrupt. -/
def eraseAll (start_address len : Nat) (s : Flash) : Ret × Flash :=
  resumeAll (halNorflashEraseResume ctx true) s.irqs.length (halNorflashEraseSuspend ctx start_address len true s)

/-- A write that is suspended and resumed. -/
def writeAll (start_address : Nat) (buffer : Nat → UInt8) (len : Nat) (s : Flash) : Ret × Flash :=
  resumeAll (halNorflashWriteResume ctx true) s.irqs.length
    (halNorflashWriteSuspend ctx start_address buffer len true s)

/-! ## Pieces -/

/-- The commands that a loop gives, undisturbed. -/
def pieces (sizeOf : Cursor → Nat) (opOf : Cursor → Nat → ChipOp) : Nat → Cursor → List ChipOp
  | 0, _ => []
  | fuel + 1, c => if c.remain_len > 0 then opOf c (sizeOf c) :: pieces sizeOf opOf fuel (c.next (sizeOf c)) else []

/-- What a list of commands does. -/
def finishAll (ops : List ChipOp) (f : Mem) : Mem := ops.foldl (fun f op => op.finish f) f

/-- The interrupts suspend a command when `k` commands before it are done. -/
def suspendsAt : List (Option Mem) → Nat → Bool
  | [], _ => false
  | some _ :: _, 0 => true
  | some _ :: irqs, k + 1 => suspendsAt irqs (k + 1)
  | none :: _, 0 => false
  | none :: irqs, k + 1 => suspendsAt irqs k

/-- A suspended command loses nothing. -/
theorem finish_part (op : ChipOp) (f mid : Mem) : op.finish (op.part f mid) = op.finish f := by
  cases op with
  | erase base len =>
    funext a
    by_cases h : InRange base len a
    · simp only [ChipOp.finish, ChipOp.part, erase_of h]
    · simp only [ChipOp.finish, ChipOp.part, erase_other h, erasePart, if_neg h]
  | program base len data =>
    funext a
    by_cases h : InRange base len a
    · simp only [ChipOp.finish, ChipOp.part, program_of h, programPart, if_pos h]
      exact programPart_finish _ _ _
    · simp only [ChipOp.finish, ChipOp.part, program_other h, programPart, if_neg h]

section

variable {sizeOf : Cursor → Nat} {opOf : Cursor → Nat → ChipOp} {command : Cursor → Nat → Flash → Ret × Flash}
  {suspend : Bool} {J : Cursor → Prop} {c : Cursor} {s : Flash} {fuel : Nat}

/-- The commands for all that remains. -/
def allPieces (sizeOf : Cursor → Nat) (opOf : Cursor → Nat → ChipOp) (c : Cursor) : List ChipOp :=
  pieces sizeOf opOf c.remain_len c

theorem pieces_eq (hpos : ∀ c, c.remain_len > 0 → 0 < sizeOf c) (h : c.remain_len ≤ fuel) :
    pieces sizeOf opOf fuel c = allPieces sizeOf opOf c := by
  unfold allPieces
  induction fuel using Nat.strong_induction_on generalizing c with
  | _ fuel ih =>
    cases fuel with
    | zero => rw [Nat.le_zero.1 h]
    | succ fuel =>
      cases hc : c.remain_len with
      | zero => simp [pieces, hc]
      | succ n =>
        have hsize := hpos c (by omega)
        have hnext : (c.next (sizeOf c)).remain_len = c.remain_len - sizeOf c := rfl
        rw [pieces, pieces, ih fuel (by omega) (by omega), ih n (by omega) (by omega)]

theorem allPieces_zero (h : c.remain_len = 0) : allPieces sizeOf opOf c = [] := by rw [allPieces, h, pieces]

theorem allPieces_pos (hpos : ∀ c, c.remain_len > 0 → 0 < sizeOf c) (h : c.remain_len > 0) :
    allPieces sizeOf opOf c = opOf c (sizeOf c) :: allPieces sizeOf opOf (c.next (sizeOf c)) := by
  have hnext : (c.next (sizeOf c)).remain_len ≤ c.remain_len - 1 := by
    have := hpos c h
    show c.remain_len - sizeOf c ≤ _
    omega
  obtain ⟨n, hn⟩ : ∃ n, c.remain_len = n + 1 := ⟨c.remain_len - 1, by omega⟩
  rw [allPieces, hn, pieces, if_pos h, pieces_eq hpos (by omega)]

/-- A wait suspends the command, or it is done and the next interrupt is the
next command's. -/
theorem wait_cases (op : ChipOp) (s : Flash) :
    (∃ mid irqs, s.irqs = some mid :: irqs ∧ statusWip1Wait op true s =
      (.suspended, { s with flash := op.part s.flash mid, chipOp := some op, irqs := irqs })) ∨
    ∃ irqs, statusWip1Wait op true s = (.ok, { s with flash := op.finish s.flash, chipOp := none, irqs := irqs }) ∧
      irqs.length ≤ s.irqs.length ∧ suspendsAt s.irqs 0 = false ∧ ∀ k, suspendsAt s.irqs (k + 1) = suspendsAt irqs k := by
  rcases h : s.irqs with _ | ⟨_ | mid, irqs⟩
  · right
    refine ⟨[], ?_, Nat.le_refl _, rfl, fun _ => rfl⟩
    simp only [statusWip1Wait, h, if_true]
  · right
    exact ⟨irqs, by simp only [statusWip1Wait, h, if_true], by simp, rfl, fun _ => rfl⟩
  · left
    exact ⟨mid, irqs, rfl, by simp only [statusWip1Wait, h, if_true]⟩

/-- Without interruption a loop does what its commands do. -/
theorem pieceLoop_plain (sizeOf : Cursor → Nat) (opOf : Cursor → Nat → ChipOp)
    (command : Cursor → Nat → Flash → Ret × Flash)
    (hcmd : ∀ c s, command c (sizeOf c) s = statusWip1Wait (opOf c (sizeOf c)) false s) (fuel : Nat) (c : Cursor) (s : Flash) :
    ∃ c' s', pieceLoop sizeOf command fuel c s = (.ok, c', s') ∧
      s'.flash = finishAll (pieces sizeOf opOf fuel c) s.flash := by
  induction fuel generalizing c s with
  | zero => exact ⟨c, s, rfl, rfl⟩
  | succ fuel ih =>
    rw [pieceLoop, pieces]
    by_cases h : c.remain_len > 0
    · rw [if_pos h, if_pos h, hcmd]
      exact ih _ _
    · rw [if_neg h, if_neg h]
      exact ⟨c, s, rfl, rfl⟩

/-- Where a loop that interrupts may suspend ends: at its end, or in a piece
whose completion with the pieces behind it does the same. -/
theorem pieceLoop_spec (hcmd : ∀ c s, J c → c.remain_len > 0 →
      command c (sizeOf c) s = statusWip1Wait (opOf c (sizeOf c)) true s)
    (hpos : ∀ c, c.remain_len > 0 → 0 < sizeOf c)
    (hJ : ∀ c, J c → c.remain_len > 0 → J (c.next (sizeOf c))) (hc : J c) (hfuel : c.remain_len ≤ fuel) :
    (∃ c' s', pieceLoop sizeOf command fuel c s = (.ok, c', s') ∧
      s'.flash = finishAll (allPieces sizeOf opOf c) s.flash ∧
      (c.remain_len > 0 → suspendsAt s.irqs ((allPieces sizeOf opOf c).length - 1) = false)) ∨
    ∃ c' s' op, pieceLoop sizeOf command fuel c s = (.suspended, c', s') ∧ s'.chipOp = some op ∧ J c' ∧
      s'.irqs.length < s.irqs.length ∧ c.remain_len > 0 ∧
      finishAll (op :: allPieces sizeOf opOf c') s'.flash = finishAll (allPieces sizeOf opOf c) s.flash ∧
      (suspendsAt s.irqs ((allPieces sizeOf opOf c).length - 1) = true ↔
        c'.remain_len = 0 ∨ suspendsAt s'.irqs (allPieces sizeOf opOf c').length = true) := by
  induction fuel generalizing c s with
  | zero =>
    left
    exact ⟨c, s, rfl, by rw [allPieces_zero (by omega)]; rfl, fun h => by omega⟩
  | succ fuel ih =>
    rw [pieceLoop]
    by_cases h : c.remain_len > 0
    · have hsize := hpos c h
      have hnext : (c.next (sizeOf c)).remain_len = c.remain_len - sizeOf c := rfl
      rw [if_pos h, hcmd c s hc h, allPieces_pos hpos h]
      simp only [List.length_cons, Nat.add_sub_cancel]
      rcases wait_cases (opOf c (sizeOf c)) s with ⟨mid, irqs, hirqs, hw⟩ | ⟨irqs, hw, hlen, h0, hk⟩
      · right
        rw [hw, hirqs]
        refine ⟨_, _, _, rfl, rfl, hJ c hc h, Nat.lt_succ_self _, h, ?_, ?_⟩
        · simp only [finishAll, List.foldl_cons, finish_part]
        · rcases Nat.eq_zero_or_pos (c.next (sizeOf c)).remain_len with hz | hp
          · rw [allPieces_zero hz]
            simp [suspendsAt, hz]
          · rw [allPieces_pos hpos hp]
            simp only [List.length_cons, suspendsAt, Nat.ne_of_gt hp, false_or]
      · rw [hw]
        simp only
        rcases ih (s := { s with flash := _, chipOp := none, irqs := irqs }) (hJ c hc h) (by omega) with
          ⟨c', s', hloop, hflash, hno⟩ | ⟨c', s', op, hloop, hop, hc', hlt, hp, hfin, hiff⟩
        · left
          refine ⟨c', s', hloop, hflash, fun _ => ?_⟩
          rcases Nat.eq_zero_or_pos (c.next (sizeOf c)).remain_len with hz | hp
          · rw [allPieces_zero hz]
            exact h0
          · have := hno hp
            rw [allPieces_pos hpos hp] at this ⊢
            rw [List.length_cons, hk]
            exact this
        · right
          refine ⟨c', s', op, hloop, hop, hc', Nat.lt_of_lt_of_le hlt hlen, h, hfin, ?_⟩
          rw [← hiff, allPieces_pos hpos hp, List.length_cons, hk, Nat.add_sub_cancel]
    · left
      rw [if_neg h, allPieces_zero (by omega)]
      exact ⟨c, s, rfl, rfl, fun hp => absurd hp h⟩

/-! ## Going on -/

/-- Suspended in the piece before `c`, with `c` saved. -/
structure Held (Saved : Cursor → Flash → Prop) (c : Cursor) (op : ChipOp) (s : Flash) : Prop where
  saved : Saved c s
  chip : s.chipOp = some op

/-- What a save after a loop does, and what of it a wait leaves alone. -/
structure SaveSpec (save : Ret × Cursor × Flash → Ret × Flash) (Saved : Cursor → Flash → Prop) : Prop where
  done : ∀ c s, save (.ok, c, s) = (.ok, { s with suspend_state := .none })
  held : ∀ c s, ∃ s', save (.suspended, c, s) = (.suspended, s') ∧ Saved c s' ∧ s'.flash = s.flash ∧
    s'.chipOp = s.chipOp ∧ s'.irqs = s.irqs
  keep : ∀ c s f o irqs, Saved c s → Saved c { s with flash := f, chipOp := o, irqs := irqs }

theorem resumeAll_other {resume : Flash → Ret × Flash} {r : Ret × Flash} (h : r.1 ≠ .suspended) :
    resumeAll resume fuel r = r := by
  obtain ⟨ret, s⟩ := r
  cases fuel with
  | zero => rfl
  | succ fuel => cases ret <;> first | rfl | exact absurd rfl h

/-- An operation ends with a bad address if `bad`, and otherwise well, with the
flash `f`. -/
def EndsAs (bad : Prop) (f : Mem) (r : Ret × Flash) : Prop :=
  (bad → r.1 = .badAddr) ∧ (¬ bad → r.1 = .ok ∧ r.2.suspend_state = .none ∧ r.2.flash = f)

theorem EndsAs.congr {bad bad' : Prop} {f : Mem} {r : Ret × Flash} (h : EndsAs bad f r) (hiff : bad' ↔ bad) :
    EndsAs bad' f r := ⟨fun hb => h.1 (hiff.1 hb), fun hb => h.2 (fun hb' => hb (hiff.2 hb'))⟩

/-- The last of the commands is suspended. -/
def LastSuspended (ops : List ChipOp) (irqs : List (Option Mem)) : Prop :=
  0 < ops.length ∧ suspendsAt irqs (ops.length - 1) = true

instance (ops : List ChipOp) (irqs : List (Option Mem)) : Decidable (LastSuspended ops irqs) :=
  inferInstanceAs (Decidable (_ ∧ _))

section

variable {save : Ret × Cursor × Flash → Ret × Flash} {Saved : Cursor → Flash → Prop} {resume : Flash → Ret × Flash}
  {atEnd : Prop} [Decidable atEnd]

/-- An operation in pieces that goes on where it was saved, which fails when
nothing remains and that place is out of range (`atEnd`). -/
structure Resumable (sizeOf : Cursor → Nat) (opOf : Cursor → Nat → ChipOp)
    (command : Cursor → Nat → Flash → Ret × Flash) (save : Ret × Cursor × Flash → Ret × Flash)
    (Saved : Cursor → Flash → Prop) (resume : Flash → Ret × Flash) (J : Cursor → Prop) (atEnd : Prop)
    [Decidable atEnd] : Prop where
  save_spec : SaveSpec save Saved
  command_eq : ∀ c s, J c → c.remain_len > 0 → command c (sizeOf c) s = statusWip1Wait (opOf c (sizeOf c)) true s
  size_pos : ∀ c, c.remain_len > 0 → 0 < sizeOf c
  next : ∀ c, J c → c.remain_len > 0 → J (c.next (sizeOf c))
  resume_eq : ∀ c op s, J c → Held Saved c op s → resume s =
    match statusWip1Wait op true s with
    | (.suspended, s) => (.suspended, s)
    | (_, s) => if c.remain_len = 0 ∧ atEnd then (.badAddr, s) else save (pieceLoop sizeOf command c.remain_len c s)

/-- A loop and what follows its suspension: one round more than what follows
a suspended command. -/
theorem resumeAll_loop (hr : Resumable sizeOf opOf command save Saved resume J atEnd)
    (hheld : ∀ c op s', J c → Held Saved c op s' → s'.irqs.length < s.irqs.length →
      EndsAs (atEnd ∧ (c.remain_len = 0 ∨ suspendsAt s'.irqs (allPieces sizeOf opOf c).length = true))
        (finishAll (op :: allPieces sizeOf opOf c) s'.flash) (resumeAll resume fuel (.suspended, s')))
    (hc : J c) :
    EndsAs (atEnd ∧ LastSuspended (allPieces sizeOf opOf c) s.irqs) (finishAll (allPieces sizeOf opOf c) s.flash)
      (resumeAll resume fuel (save (pieceLoop sizeOf command c.remain_len c s))) := by
  have hlen : c.remain_len > 0 → 0 < (allPieces sizeOf opOf c).length := by
    intro hp
    rw [allPieces_pos hr.size_pos hp]
    exact Nat.succ_pos _
  rcases pieceLoop_spec (s := s) hr.command_eq hr.size_pos hr.next hc (Nat.le_refl _) with
    ⟨c', s', hloop, hflash, hno⟩ | ⟨c', s', op, hloop, hop, hc', hlt, hp, hfin, hiff⟩
  · rw [hloop, hr.save_spec.done, resumeAll_other (by simp)]
    refine ⟨fun hbad => absurd hbad.2 ?_, fun _ => ⟨rfl, rfl, hflash⟩⟩
    rintro ⟨hm, hlast⟩
    rcases Nat.eq_zero_or_pos c.remain_len with hz | hp
    · rw [allPieces_zero hz] at hm
      exact absurd hm (Nat.lt_irrefl 0)
    · rw [hno hp] at hlast
      exact Bool.noConfusion hlast
  · obtain ⟨s₂, hs₂, hsaved, hflash₂, hchip₂, hirqs₂⟩ := hr.save_spec.held c' s'
    rw [hloop, hs₂]
    have hend := hheld c' op s₂ hc' ⟨hsaved, hchip₂.trans hop⟩ (by rw [hirqs₂]; exact hlt)
    rw [hirqs₂, hflash₂, hfin] at hend
    apply hend.congr
    rw [LastSuspended, hiff, and_iff_right (hlen hp)]

/-- A resumed operation ends well, unless its last piece ends at the end of
the device (`atEnd`) and is suspended. -/
theorem resumeAll_spec (hr : Resumable sizeOf opOf command save Saved resume J atEnd)
    {op : ChipOp} (hc : J c) (hs : Held Saved c op s) (hfuel : s.irqs.length < fuel) :
    EndsAs (atEnd ∧ (c.remain_len = 0 ∨ suspendsAt s.irqs (allPieces sizeOf opOf c).length = true))
      (finishAll (op :: allPieces sizeOf opOf c) s.flash) (resumeAll resume fuel (.suspended, s)) := by
  induction fuel generalizing c s op with
  | zero => omega
  | succ fuel ih =>
    rw [resumeAll, hr.resume_eq c op s hc hs]
    rcases wait_cases op s with ⟨mid, irqs, hirqs, hw⟩ | ⟨irqs, hw, hlen, -, hk⟩
    · -- suspended again: only an interrupt is gone
      rw [hw]
      simp only
      have hnext := @ih c { s with flash := op.part s.flash mid, chipOp := some op, irqs := irqs } op hc
        ⟨hr.save_spec.keep _ _ _ _ _ hs.saved, rfl⟩ (by rw [hirqs, List.length_cons] at hfuel; exact Nat.lt_of_succ_lt_succ hfuel)
      simp only [finishAll, List.foldl_cons, finish_part] at hnext ⊢
      apply hnext.congr
      apply and_congr_right
      intro _
      rcases Nat.eq_zero_or_pos c.remain_len with hz | hp
      · simp only [hz, true_or]
      · rw [hirqs, allPieces_pos hr.size_pos hp]
        simp only [List.length_cons, suspendsAt]
    · -- the command is done, and the rest is done in a loop
      rw [hw]
      simp only
      by_cases hend : c.remain_len = 0 ∧ atEnd
      · rw [if_pos hend, resumeAll_other (by simp)]
        exact ⟨fun _ => rfl, fun hgood => absurd ⟨hend.2, .inl hend.1⟩ hgood⟩
      · rw [if_neg hend]
        have hheld : ∀ c op' s', J c → Held Saved c op' s' → s'.irqs.length < irqs.length → _ :=
          fun c op' s' hc' hs' hlt => @ih c s' op' hc' hs' (by omega)
        have hloop := resumeAll_loop (s := { s with flash := op.finish s.flash, chipOp := none, irqs := irqs }) hr hheld hc
        apply hloop.congr
        apply and_congr_right
        intro hat
        rcases Nat.eq_zero_or_pos c.remain_len with hz | hp
        · exact absurd ⟨hz, hat⟩ hend
        · simp only [LastSuspended, allPieces_pos hr.size_pos hp, List.length_cons, hk, Nat.ne_of_gt hp, false_or,
            Nat.succ_pos, true_and, Nat.add_sub_cancel]

/-- The same for the whole operation, from its start. -/
theorem resumeAll_started (hr : Resumable sizeOf opOf command save Saved resume J atEnd) (hc : J c) :
    EndsAs (atEnd ∧ LastSuspended (allPieces sizeOf opOf c) s.irqs) (finishAll (allPieces sizeOf opOf c) s.flash)
      (resumeAll resume s.irqs.length (save (pieceLoop sizeOf command c.remain_len c s))) :=
  resumeAll_loop hr (fun _ _ _ hc' hs' hlt => resumeAll_spec hr hc' hs' hlt) hc

end

end

end Hal.Norflash
