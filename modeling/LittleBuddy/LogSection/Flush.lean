import LittleBuddy.LogSection.Boot
import LittleBuddy.LogSection.Buffers
/-!
# Flushing the log

The log is a list of payloads, one a sector: those that are in the flash, those
in full buffers and at most one in the buffer that is being written. A flush
step erases the next sector or writes the first buffer, and `log_dump_flush_all`
ends, because each call that the norflash layer accepts leaves fewer to come.
-/
open Bytes NorMem SectorRing

namespace LogDump

/-- `logged` is what `log_dump_output_handler` was called with. -/
structure Sys where
  log : Log
  logged : List UInt8

/-- The sectors of a log with these payloads, numbered from `n` on. -/
def sectors : Nat → Bool → List (List UInt8) → List (List UInt8)
  | _, _, [] => []
  | n, is_bootup, payload :: payloads =>
    (header (UInt32.ofNat n) is_bootup ++ payload) :: sectors (n + 1) false payloads

/-- No buffer is in use, and the log area holds the last sectors of the earlier
log and of a log of the bytes `logged`: whole sectors, but for the last. -/
structure Flushed (count : Nat) (earlier : List (List UInt8)) (logged : List UInt8) (s : Log) : Prop where
  free : allFree s = true
  area : ∃ payloads spare, payloads.flatten = logged ∧ (∀ p ∈ payloads.dropLast, p.length = payloadLen) ∧
    (∀ p ∈ payloads, p.length ≤ payloadLen) ∧ spare ≤ 1 ∧
    LogArea count s.flash (earlier ++ sectors earlier.length true payloads) spare

/-! ## Sectors -/

variable {n count spare : Nat} {is_bootup : Bool} {payload : List UInt8} {payloads payloads' : List (List UInt8)}

@[simp] theorem length_sectors : (sectors n is_bootup payloads).length = payloads.length := by
  induction payloads generalizing n is_bootup with
  | nil => rfl
  | cons payload payloads ih => simp [sectors, ih]

theorem sectors_append : sectors n is_bootup (payloads ++ payloads') =
    sectors n is_bootup payloads ++ sectors (n + payloads.length) (is_bootup && payloads.isEmpty) payloads' := by
  induction payloads generalizing n is_bootup with
  | nil => simp [sectors]
  | cons payload payloads ih =>
    rw [List.cons_append, sectors, ih, sectors, List.length_cons]
    simp [Nat.add_comm, Nat.add_left_comm]

/-! ## The invariant -/

variable {earlier written full_payloads blocks : List (List UInt8)} {part_payload : Option (List UInt8)} {b : List UInt8}
  {s : Log} {S : Sys}

/-- The flash part: `flash_offs` is the sector of the next block, which is erased
unless the flash state is idle. -/
structure Area (count : Nat) (s : Log) (blocks : List (List UInt8)) : Prop where
  offs : s.flash_offs = addr sectorSize count blocks.length
  area : ∃ spare, spare ≤ 1 ∧ (s.flash_state ≠ .idle → spare = 1) ∧ LogArea count s.flash blocks spare
  erased : s.flash_state ≠ .idle → ∀ a, InRange s.flash_offs sectorSize a → s.flash a = 0xff

/-- The payloads logged so far are those `written` to the flash, those in full
buffers, and one in the buffer that is being written. -/
structure Open (count : Nat) (earlier : List (List UInt8)) (s : Sys) (written full : List (List UInt8))
    (part : Option (List UInt8)) : Prop where
  logged : (written ++ full ++ part.toList).flatten = s.logged
  full_len : ∀ p ∈ written ++ full, p.length = payloadLen
  part_len : ∀ p ∈ part, p.length < payloadLen
  buffers : Buffers s.log (sectors (earlier.length + written.length) written.isEmpty full)
    (part.map fun p =>
      header (UInt32.ofNat (earlier.length + (written ++ full).length)) (written ++ full).isEmpty ++ p)
  seqnum : s.log.cur_dump_seqnum = UInt32.ofNat (earlier.length + (written ++ full ++ part.toList).length)
  bootup : s.log.is_bootup = (written ++ full ++ part.toList).isEmpty
  area : Area count s.log (earlier ++ sectors earlier.length true written)

/-- All is flushed, and a sector only in part: nothing moves any more. -/
structure Closed (count : Nat) (earlier : List (List UInt8)) (s : Sys) : Prop where
  flushed : Flushed count earlier s.logged s.log
  idle : s.log.flash_state = .idle
  unaligned : s.log.flash_offs % sectorSize ≠ 0

/-! ## The flash -/

theorem Area.aligned (h : Area count s blocks) : s.flash_offs % sectorSize = 0 := by
  rw [h.offs]
  exact Nat.mul_mod_left ..

theorem Area.erase (h : Area count s blocks) :
    Area count { s with flash := erase s.flash s.flash_offs sectorSize, flash_state := .erased } blocks where
  offs := h.offs
  area := by
    obtain ⟨spare, hspare, -, harea⟩ := h.area
    refine ⟨1, le_rfl, fun _ => rfl, ?_⟩
    dsimp only
    rw [h.offs]
    exact harea.erase hspare
  erased _ a ha := erase_of ha

theorem Area.program (h : Area count s blocks) (hstate : s.flash_state ≠ .idle)
    (hb : b = header (UInt32.ofNat blocks.length) is_bootup ++ payload) (hlen : b.length ≤ sectorSize) :
    LogArea count (program s.flash s.flash_offs b.length (bufferOf b)) (blocks ++ [b]) 0 := by
  obtain ⟨spare, -, hspare, harea⟩ := h.area
  obtain rfl := hspare hstate
  have herased := h.erased hstate
  rw [h.offs] at herased ⊢
  exact harea.program herased hb hlen

/-- `flash_offs` after a whole sector. -/
theorem offs_succ (hcount : 0 < count) (n : Nat) :
    nextOffs (count * sectorSize) (addr sectorSize count n) sectorSize = addr sectorSize count (n + 1) :=
  addr_succ hcount (by decide) n

/-- `flash_offs` after a part of a sector. -/
theorem offs_part (hcount : 0 < count) (n : Nat) {len : Nat} (hpos : 0 < len) (hlen : len < sectorSize) :
    nextOffs (count * sectorSize) (addr sectorSize count n) len % sectorSize ≠ 0 := by
  have hmul : (n % count + 1) * sectorSize ≤ count * sectorSize := Nat.mul_le_mul_right _ (Nat.mod_lt n hcount)
  rw [Nat.succ_mul] at hmul
  have hlt : ¬ addr sectorSize count n + len ≥ count * sectorSize := by
    rw [addr]
    omega
  rw [nextOffs, if_neg hlt, addr, Nat.mul_add_mod_self_right, Nat.mod_eq_of_lt hlen]
  exact hpos.ne'

/-! ## A flush step -/

theorem Open.header_len (h : Open count earlier S written full_payloads part_payload) {p : List UInt8}
    (hp : p ∈ written ++ full_payloads) (seqnum : UInt32) (is_bootup : Bool) : (header seqnum is_bootup ++ p).length = sectorSize := by
  rw [List.length_append, length_header, h.full_len p hp]
  rfl

/-- The next sector is erased. -/
theorem Open.erase (h : Open count earlier S written full_payloads part_payload) :
    Open count earlier
      { S with log := { S.log with flash := erase S.log.flash S.log.flash_offs sectorSize, flash_state := .erased } }
      written full_payloads part_payload :=
  { h with buffers := { h.buffers with }, area := h.area.erase }

/-- A write that finds no room. -/
theorem Open.refuse (h : Open count earlier S written full_payloads part_payload) (hstate : S.log.flash_state ≠ .idle) :
    Open count earlier { S with log := { S.log with flash_state := .writting } } written full_payloads part_payload := by
  obtain ⟨spare, hspare, hone, harea⟩ := h.area.area
  refine { h with buffers := { h.buffers with }, area := ⟨h.area.offs, ⟨spare, hspare, fun _ => hone hstate, harea⟩, ?_⟩ }
  exact fun _ => h.area.erased hstate

/-- The next block has the number of the blocks so far. -/
theorem block_eq (p : List UInt8) : header (UInt32.ofNat (earlier.length + written.length)) written.isEmpty ++ p =
    header (UInt32.ofNat (earlier ++ sectors earlier.length true written).length) written.isEmpty ++ p := by
  rw [List.length_append, length_sectors]

/-- The blocks with one more. -/
theorem blocks_snoc (p : List UInt8) : earlier ++ sectors earlier.length true (written ++ [p]) =
    (earlier ++ sectors earlier.length true written) ++
      [header (UInt32.ofNat (earlier.length + written.length)) written.isEmpty ++ p] := by
  rw [sectors_append, Bool.true_and, ← List.append_assoc]
  rfl

/-- A full buffer is written. -/
theorem Open.write_full {p : List UInt8} (h : Open count earlier S written (p :: full_payloads) part_payload)
    (hcount : 0 < count) (hstate : S.log.flash_state ≠ .idle) {data_buff : DataBuffer}
    (hbuff : S.log.data_buffer_list S.log.f_seqnum = data_buff) :
    Open count earlier { S with log := { S.log with
        data_buffer_list := Function.update S.log.data_buffer_list S.log.f_seqnum { data_buff with state := .free }
        f_seqnum := nextSeqnum S.log.f_seqnum
        flash_offs := nextOffs (count * sectorSize) S.log.flash_offs data_buff.offset
        flash := program S.log.flash S.log.flash_offs data_buff.offset (bufferOf data_buff.buffer)
        flash_state := .idle } } (written ++ [p]) full_payloads part_payload := by
  have hbuffer := h.buffers.f_buffer.1 _ _ rfl
  rw [hbuff] at hbuffer
  subst hbuffer
  have hlen := h.header_len (p := p) (by simp) (UInt32.ofNat (earlier.length + written.length)) written.isEmpty
  have harea := h.area.program hstate (block_eq p) hlen.le
  have hsplit : written ++ [p] ++ full_payloads = written ++ p :: full_payloads := by simp
  exact {
    logged := by rw [hsplit]; exact h.logged
    full_len := by rw [hsplit]; exact h.full_len
    part_len := h.part_len
    buffers := by
      rw [hsplit, List.length_append, List.length_singleton, ← Nat.add_assoc,
        show (written ++ [p]).isEmpty = false by simp]
      exact h.buffers.free_full
    seqnum := by rw [hsplit]; exact h.seqnum
    bootup := by rw [hsplit]; exact h.bootup
    area := by
      rw [blocks_snoc]
      refine ⟨?_, ⟨0, Nat.zero_le 1, fun hne => absurd rfl hne, harea⟩, fun hne => absurd rfl hne⟩
      dsimp only
      rw [DataBuffer.offset, hlen, h.area.offs, offs_succ hcount]
      simp only [List.length_append, List.length_singleton] }

/-- The buffer that is being written is flushed. -/
theorem Open.write_part {p : List UInt8} (h : Open count earlier S written [] (some p)) (hcount : 0 < count)
    (hstate : S.log.flash_state ≠ .idle) {data_buff : DataBuffer}
    (hbuff : S.log.data_buffer_list S.log.f_seqnum = data_buff) :
    Closed count earlier { S with log := { S.log with
        data_buffer_list := Function.update S.log.data_buffer_list S.log.f_seqnum { data_buff with state := .free }
        f_seqnum := nextSeqnum S.log.f_seqnum
        flash_offs := nextOffs (count * sectorSize) S.log.flash_offs data_buff.offset
        flash := program S.log.flash S.log.flash_offs data_buff.offset (bufferOf data_buff.buffer)
        flash_state := .idle } } := by
  have hbuffer := h.buffers.f_buffer.2.1 _ rfl rfl
  simp only [hbuff, List.append_nil] at hbuffer
  subst hbuffer
  have hpart := h.part_len p rfl
  have hlen : (header (UInt32.ofNat (earlier.length + written.length)) written.isEmpty ++ p).length =
      headerLen + p.length := by rw [List.length_append, length_header]
  have hlt : headerLen + p.length < sectorSize := by
    have hsize : headerLen + payloadLen = sectorSize := rfl
    omega
  have harea := h.area.program hstate (block_eq p) (hlen.trans_le hlt.le)
  rw [← blocks_snoc] at harea
  exact {
    flushed := {
      free := h.buffers.free_part _
      area := by
        refine ⟨written ++ [p], 0, ?_, ?_, ?_, Nat.zero_le 1, ?_⟩
        · simpa using h.logged
        · intro q hq
          rw [List.dropLast_concat] at hq
          exact h.full_len q (by simpa using hq)
        · intro q hq
          rcases List.mem_append.1 hq with hq | hq
          · exact (h.full_len q (by simpa using hq)).le
          · rw [List.mem_singleton.1 hq]
            exact hpart.le
        · exact harea }
    idle := rfl
    unaligned := by
      dsimp only
      rw [DataBuffer.offset, hlen, h.area.offs]
      exact offs_part hcount _ (Nat.add_pos_left (by decide) _) hlt }

/-- Where a flush step leads if its call is accepted. -/
inductive Flushes (count : Nat) (earlier : List (List UInt8)) (S S' : Sys) (written : List (List UInt8)) :
    List (List UInt8) → Option (List UInt8) → Prop
  | erase {full : List (List UInt8)} {part : Option (List UInt8)} : S.log.flash_state = .idle → S'.log.flash_state ≠ .idle →
      Open count earlier S' written full part → Flushes count earlier S S' written full part
  | full {p : List UInt8} {full : List (List UInt8)} {part : Option (List UInt8)} : S.log.flash_state ≠ .idle →
      S'.log.flash_state = .idle → Open count earlier S' (written ++ [p]) full part → Flushes count earlier S S' written (p :: full) part
  | part {p : List UInt8} : S.log.flash_state ≠ .idle → Closed count earlier S' → Flushes count earlier S S' written [] (some p)

/-- A flush step has nothing to write, or it makes one call: if that finds no
room the sectors are where they were. -/
theorem Open.flush_cases (h : Open count earlier S written full_payloads part_payload) (hcount : 0 < count)
    (buff_state : BufferState → Bool) (hwritten : buff_state .written = true) (hfree : buff_state .free = false)
    (is_async : Bool) :
    (full_payloads = [] ∧ (part_payload = none ∨ buff_state .writting = false) ∧ S.log.flash_state ≠ .idle ∧
      ∀ answers, flushStep (count * sectorSize) buff_state is_async answers S.log = some (answers, S.log)) ∨
    ∃ refused accepted, (∀ answers, flushStep (count * sectorSize) buff_state is_async answers S.log =
        (apiCall (is_async && !S.log.is_immediately) answers).map fun r => (r.2, if r.1 then accepted else refused)) ∧
      Open count earlier ⟨refused, S.logged⟩ written full_payloads part_payload ∧
      Flushes count earlier S ⟨accepted, S.logged⟩ written full_payloads part_payload := by
  by_cases hidle : S.log.flash_state = .idle
  · refine .inr ⟨S.log, _, fun answers => ?_, h, .erase hidle (by simp) h.erase⟩
    rw [flushStep, if_pos ⟨hidle, h.area.aligned⟩]
    rcases apiCall (is_async && !S.log.is_immediately) answers with _ | ⟨_ | _, answers⟩ <;> rfl
  have hstate : S.log.flash_state = .erased ∨ S.log.flash_state = .writting := by
    cases hS : S.log.flash_state with
    | idle => exact absurd hS hidle
    | erased => exact .inl rfl
    | writting => exact .inr rfl
  have hskip : ¬ (S.log.flash_state = .idle ∧ S.log.flash_offs % sectorSize = 0) := fun h => hidle h.1
  have hoffset : ∀ seqnum is_bootup (p : List UInt8), 0 < (header seqnum is_bootup ++ p).length := by
    intro seqnum is_bootup p
    rw [List.length_append, length_header]
    exact Nat.add_pos_left (by decide) _
  cases full_payloads with
  | cons p full_payloads =>
    have hbuffer := h.buffers.f_buffer.1 _ _ rfl
    refine .inr ⟨_, _, fun answers => ?_, h.refuse hidle, .full hidle rfl (h.write_full hcount hidle rfl)⟩
    have hused : buff_state (S.log.data_buffer_list S.log.f_seqnum).state = true ∧
        (S.log.data_buffer_list S.log.f_seqnum).offset > 0 := by
      rw [hbuffer]
      exact ⟨hwritten, hoffset ..⟩
    rw [flushStep, if_neg hskip, if_pos hstate]
    dsimp only
    rw [if_pos hused]
    rcases apiCall (is_async && !S.log.is_immediately) answers with _ | ⟨_ | _, answers⟩ <;> rfl
  | nil =>
    cases part_payload with
    | none =>
      have hbuffer := h.buffers.f_buffer.2.2 rfl rfl
      refine .inl ⟨rfl, .inl rfl, hidle, fun answers => ?_⟩
      rw [flushStep, if_neg hskip, if_pos hstate]
      dsimp only
      rw [if_neg]
      rw [hbuffer, hfree]
      exact fun h => Bool.false_ne_true h.1
    | some p =>
      have hbuffer := h.buffers.f_buffer.2.1 _ rfl rfl
      by_cases hwritting : buff_state .writting = true
      · refine .inr ⟨_, _, fun answers => ?_, h.refuse hidle, .part hidle (h.write_part hcount hidle rfl)⟩
        have hused : buff_state (S.log.data_buffer_list S.log.f_seqnum).state = true ∧
            (S.log.data_buffer_list S.log.f_seqnum).offset > 0 := by
          rw [hbuffer]
          exact ⟨hwritting, hoffset ..⟩
        rw [flushStep, if_neg hskip, if_pos hstate]
        dsimp only
        rw [if_pos hused]
        rcases apiCall (is_async && !S.log.is_immediately) answers with _ | ⟨_ | _, answers⟩ <;> rfl
      · refine .inl ⟨rfl, .inr (Bool.eq_false_iff.2 hwritting), hidle, fun answers => ?_⟩
        rw [flushStep, if_neg hskip, if_pos hstate]
        dsimp only
        rw [if_neg]
        rw [hbuffer]
        exact fun h => hwritting h.1

/-! ## Flushing all -/

def Inv (count : Nat) (earlier : List (List UInt8)) (S : Sys) : Prop :=
  (∃ written full part, Open count earlier S written full part) ∨ Closed count earlier S

theorem Flushes.inv {S' : Sys} (h : Flushes count earlier S S' written full_payloads part_payload) :
    Inv count earlier S' := by
  cases h with
  | erase _ _ hopen => exact .inl ⟨_, _, _, hopen⟩
  | full _ _ hopen => exact .inl ⟨_, _, _, hopen⟩
  | part _ hclosed => exact .inr hclosed

theorem Closed.flushStep_eq (h : Closed count earlier S) (buff_state : BufferState → Bool) (is_async : Bool)
    (answers : List Bool) :
    flushStep (count * sectorSize) buff_state is_async answers S.log = some (answers, S.log) := by
  rw [flushStep, if_neg (fun hskip => h.unaligned hskip.2), if_neg]
  rw [h.idle]
  decide

/-- A flush step keeps the invariant. -/
theorem Inv.flushStep (h : Inv count earlier S) (hcount : 0 < count) {buff_state : BufferState → Bool}
    (hwritten : buff_state .written = true) (hfree : buff_state .free = false) {is_async : Bool}
    {answers answers' : List Bool} {log : Log}
    (hs : flushStep (count * sectorSize) buff_state is_async answers S.log = some (answers', log)) :
    Inv count earlier ⟨log, S.logged⟩ := by
  rcases h with ⟨written, full, part, h⟩ | h
  · rcases h.flush_cases hcount buff_state hwritten hfree is_async with ⟨-, -, -, heq⟩ | ⟨refused, accepted, heq, hrefused, haccepted⟩
    · rw [heq] at hs
      cases hs
      exact .inl ⟨_, _, _, h⟩
    · rw [heq] at hs
      obtain ⟨⟨ok, rest⟩, -, hlog⟩ := Option.map_eq_some_iff.1 hs
      cases hlog
      cases ok with
      | false => exact .inl ⟨_, _, _, hrefused⟩
      | true => exact haccepted.inv
  · rw [h.flushStep_eq] at hs
    cases hs
    exact .inr h

theorem Open.immediately (h : Open count earlier S written full_payloads part_payload) :
    Open count earlier { S with log := { S.log with is_immediately := true } } written full_payloads part_payload :=
  { h with buffers := { h.buffers with }, area := { h.area with } }

theorem Inv.immediately (h : Inv count earlier S) :
    Inv count earlier { S with log := { S.log with is_immediately := true } } := by
  rcases h with ⟨written, full, part, h⟩ | h
  · exact .inl ⟨_, _, _, h.immediately⟩
  · exact .inr ⟨⟨h.flushed.free, h.flushed.area⟩, h.idle, h.unaligned⟩

/-- When no buffer is in use the whole log is in the flash. -/
theorem Inv.flushed (h : Inv count earlier S) (hfree : allFree S.log = true) : Flushed count earlier S.logged S.log := by
  rcases h with ⟨written, full, part, h⟩ | h
  · obtain ⟨hfull, hpart⟩ := h.buffers.allFree_iff.1 hfree
    obtain rfl : full = [] := by
      have hlength := congrArg List.length hfull
      rw [length_sectors] at hlength
      exact List.length_eq_zero_iff.1 hlength
    obtain rfl : part = none := Option.map_eq_none_iff.1 hpart
    have hlen : ∀ p ∈ written, p.length = payloadLen := fun p hp => h.full_len p (by simpa using hp)
    obtain ⟨spare, hspare, -, harea⟩ := h.area.area
    exact ⟨hfree, written, spare, by simpa using h.logged, fun p hp => hlen p ((List.dropLast_sublist _).subset hp),
      fun p hp => (hlen p hp).le, hspare, harea⟩
  · exact h.flushed

theorem flushRemain_inv (hcount : 0 < count) {fuel : Nat} {answers : List Bool} {log : Log} (h : Inv count earlier S)
    (hs : flushRemain (count * sectorSize) fuel answers S.log = some log) :
    Inv count earlier ⟨log, S.logged⟩ ∧ allFree log = true := by
  induction fuel generalizing answers S with
  | zero => cases hs
  | succ fuel ih =>
    rw [flushRemain] at hs
    split_ifs at hs with hfree
    · obtain ⟨-, -, rfl⟩ := Option.map_eq_some_iff.1 hs
      exact ⟨h, hfree⟩
    · obtain ⟨⟨rest, log'⟩, hstep, hs⟩ := Option.bind_eq_some_iff.1 hs
      exact ih (S := ⟨log', S.logged⟩) (h.flushStep hcount (by decide) (by decide) hstep) hs

/-! ## Termination -/

/-- The first `k` answers. -/
def answersOf : (Nat → Bool) → Nat → List Bool
  | _, 0 => []
  | st, k + 1 => st 0 :: answersOf (fun i => st (i + 1)) k

/-- The norflash layer has room again and again. -/
def Accepting (st : Nat → Bool) : Prop := ∀ n, ∃ m, n ≤ m ∧ st m = true

theorem Accepting.shift {st : Nat → Bool} (h : Accepting st) (j : Nat) : Accepting fun i => st (i + j) := by
  intro n
  obtain ⟨m, hm, hst⟩ := h (n + j)
  refine ⟨m - j, by omega, ?_⟩
  dsimp only
  rwa [Nat.sub_add_cancel (by omega)]

theorem retry_answersOf {st : Nat → Bool} {m : Nat} (hm : st m = true) :
    ∃ j, ∀ k, retry (answersOf st (k + j)) = some (answersOf (fun i => st (i + j)) k) := by
  induction m generalizing st with
  | zero => exact ⟨1, fun k => by rw [answersOf, hm, retry]⟩
  | succ m ih =>
    cases hfirst : st 0 with
    | true => exact ⟨1, fun k => by rw [answersOf, hfirst, retry]⟩
    | false =>
      obtain ⟨j, hj⟩ := @ih (fun i => st (i + 1)) hm
      refine ⟨j + 1, fun k => ?_⟩
      rw [← Nat.add_assoc, answersOf, hfirst, retry, hj]
      rfl

theorem apiCall_sync (answers : List Bool) : apiCall false answers = (retry answers).map fun answers => (true, answers) :=
  rfl

theorem flushRemain_free {flash_len : Nat} {st : Nat → Bool} (hst : Accepting st) (hfree : allFree s = true) :
    ∃ fuel k, flushRemain flash_len fuel (answersOf st k) s = some s := by
  obtain ⟨m, -, hm⟩ := hst 0
  obtain ⟨j, hj⟩ := retry_answersOf hm
  exact ⟨1, 0 + j, by rw [flushRemain, if_pos hfree, hj, Option.map_some]⟩

/-- What is left to do, in calls of the norflash layer. -/
def callsLeft (s : Log) (full : List (List UInt8)) (part : Option (List UInt8)) : Nat :=
  2 * (full.length + part.toList.length) + if s.flash_state = .idle then 1 else 0

/-- Every call that is accepted leaves fewer calls, so that all buffers get free. -/
theorem Open.flushRemain_ends (h : Open count earlier S written full_payloads part_payload) (hcount : 0 < count)
    {st : Nat → Bool} (hst : Accepting st) :
    ∃ fuel k log, flushRemain (count * sectorSize) fuel (answersOf st k) S.log = some log := by
  induction hn : callsLeft S.log full_payloads part_payload using Nat.strong_induction_on
    generalizing S written full_payloads part_payload st with
  | _ n ih =>
    by_cases hfree : allFree S.log = true
    · obtain ⟨fuel, k, hflush⟩ := flushRemain_free hst hfree
      exact ⟨fuel, k, _, hflush⟩
    have hbusy : ¬ (full_payloads = [] ∧ part_payload = none) := by
      rintro ⟨rfl, rfl⟩
      exact hfree (h.buffers.allFree_iff.2 ⟨rfl, rfl⟩)
    rcases h.flush_cases hcount (· ≠ .free) (by decide) (by decide) false with
      ⟨hfull, hpart | hpart, -⟩ | ⟨refused, accepted, heq, -, haccepted⟩
    · exact absurd ⟨hfull, hpart⟩ hbusy
    · exact absurd hpart (by decide)
    obtain ⟨m, -, hm⟩ := hst 0
    obtain ⟨j, hj⟩ := retry_answersOf hm
    -- the call is accepted in the end, and the loop goes on behind it
    suffices hrest : ∃ fuel k log,
        flushRemain (count * sectorSize) fuel (answersOf (fun i => st (i + j)) k) accepted = some log by
      obtain ⟨fuel, k, log, hflush⟩ := hrest
      refine ⟨fuel + 1, k + j, log, ?_⟩
      rw [flushRemain, if_neg hfree, heq, Bool.false_and, apiCall_sync, hj]
      exact hflush
    cases haccepted with
    | erase hidle hidle' hopen =>
      refine ih _ ?_ hopen (hst.shift j) rfl
      rw [← hn, callsLeft, callsLeft, if_pos hidle, if_neg hidle']
      exact Nat.lt_succ_self _
    | full hidle hidle' hopen =>
      refine ih _ ?_ hopen (hst.shift j) rfl
      rw [← hn, callsLeft, callsLeft, if_neg hidle, if_pos hidle', List.length_cons]
      omega
    | part _ hclosed =>
      obtain ⟨fuel, k, hflush⟩ := flushRemain_free (hst.shift j) hclosed.flushed.free
      exact ⟨fuel, k, _, hflush⟩

theorem Inv.flushAll_ends (h : Inv count earlier S) (hcount : 0 < count) {st : Nat → Bool} (hst : Accepting st) :
    ∃ fuel k log, logDumpFlushAll (count * sectorSize) fuel (answersOf st k) S.log = some log ∧
      Flushed count earlier S.logged log := by
  have himm := h.immediately
  suffices hends : ∃ fuel k log, logDumpFlushAll (count * sectorSize) fuel (answersOf st k) S.log = some log by
    obtain ⟨fuel, k, log, hflush⟩ := hends
    obtain ⟨hinv, hfree⟩ := flushRemain_inv hcount himm hflush
    exact ⟨fuel, k, log, hflush, hinv.flushed hfree⟩
  rcases himm with ⟨written, full, part, himm⟩ | himm
  · exact himm.flushRemain_ends hcount hst
  · obtain ⟨fuel, k, hflush⟩ := flushRemain_free hst himm.flushed.free
    exact ⟨fuel, k, _, hflush⟩

end LogDump
