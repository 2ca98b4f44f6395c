import LittleBuddy.Hal.Trace
import Mathlib.Tactic.IntervalCases
/-!
# What the trace ring sends and keeps

`spec` says what is written for a sequence of accepted and rejected messages. In
a run in which no 16-bit pointer and no length overflows, the UART gets it in
order, no byte of it is overwritten before it is sent, and the history buffer
is its end.
-/
open Ring Runs

namespace Hal.Trace

/-! ## The specification -/

/-- The notice that `n` messages are lost. -/
def notice (n : Nat) : List UInt8 :=
  discardsPrefix ++ (Nat.toDigits 10 n).map (fun c => UInt8.ofNat c.toNat) ++ [13, 10]

/-- The number of rejected messages without a notice, and the bytes that are written. -/
structure Spec where
  rejected : Nat
  written : List UInt8

/-- An accepted message is written, behind a notice if messages were rejected. -/
def Spec.call (sp : Spec) (c : List UInt8 × Bool) : Spec :=
  if c.2 then ⟨0, sp.written ++ (if sp.rejected = 0 then [] else notice sp.rejected) ++ c.1⟩
  else { sp with rejected := min (sp.rejected + 1) 65535 }

def spec (calls : List (List UInt8 × Bool)) : Spec := calls.foldl Spec.call ⟨0, []⟩

/-- The number of bytes still to be sent. -/
def unsentLen (cfg : Config) (t : Buf) : Nat :=
  if t.wptr ≥ t.rptr then t.wptr - t.rptr else t.wptr + cfg.traceBufSize - t.rptr

/-- The bytes still to be sent. -/
def unsent (cfg : Config) (t : Buf) : List UInt8 := content t.buf cfg.traceBufSize t.rptr (unsentLen cfg t)

/-- The bytes of a part of the buffer. -/
def part (buf : Int → UInt8) : Option Nat × Nat → List UInt8
  | (some p, len) => span buf p len
  | (none, _) => []

/-- What `hal_trace_get_history_buffer` returns. -/
def history (cfg : Config) (t : Buf) : List UInt8 :=
  part t.buf (halTraceGetHistoryBuffer cfg t).1 ++ part t.buf (halTraceGetHistoryBuffer cfg t).2

/-- The length of the notice in front of the next message. -/
def noticeLen (t : Buf) : Nat := if t.discards = 0 then 0 else (discardsBuf t.discards).length

/-- No sum overflows when a message is accepted or a transfer ends, and a notice
reaches the end of the buffer only when a message has reached it before. -/
def InBounds (cfg : Config) (e : Event) (s : Sys) : Prop :=
  let t := s.dev.trace
  match e with
  | .output buf => rejects cfg buf.length t = false →
      (t.discards ≠ 0 → buf.length + discardsBufSize < 2 ^ 32) ∧ t.wptr + noticeLen t < 2 ^ 16 ∧
        (cfg.traceBufSize ≤ t.wptr + noticeLen t → t.wrapped = true) ∧
        wrap cfg.traceBufSize (t.wptr + noticeLen t) + buf.length < 2 ^ 16
  | .complete c => t.rptr + (c.moved t.buf s.dev.dma_desc).length < 2 ^ 16

/-- The bytes handed to the UART and those still to be sent are what is to be
written, the next message leaves the latter alone, and the history is the end of
what was written. While no transfer goes on nothing is left to be sent. -/
structure Lawful (cfg : Config) (s : Sys) : Prop where
  handed : s.uart ++ unsent cfg s.dev.trace = (spec s.calls).written
  kept : ∀ buf s', InBounds cfg (.output buf) s → step cfg (.output buf) s = some s' →
    content s'.dev.trace.buf cfg.traceBufSize s.dev.trace.rptr (unsentLen cfg s.dev.trace) = unsent cfg s.dev.trace
  drained : s.dev.trace.sending = false → unsent cfg s.dev.trace = []
  history : history cfg s.dev.trace = (spec s.calls).written.drop ((spec s.calls).written.length - cfg.traceBufSize)

/-! ## Notices -/

theorem toNat_digitChar {d : Nat} (h : d < 10) : d.digitChar.toNat = d + 48 := by
  interval_cases d <;> rfl

theorem digits_reverse (room : Nat) {n : Nat} (h : n < 10 ^ room) (hroom : 0 < room) :
    (digits room n).reverse = (Nat.toDigits 10 n).map fun c => UInt8.ofNat c.toNat := by
  induction room generalizing n with
  | zero => cases hroom
  | succ room ih =>
    rw [Nat.toDigits_eq_if (by decide), digits, List.reverse_cons]
    by_cases hn : n < 10
    · have hdiv : n / 10 = 0 := by omega
      have hmod : n % 10 = n := Nat.mod_eq_of_lt hn
      simp [hn, hdiv, hmod, toNat_digitChar]
    · have hdiv : n / 10 ≠ 0 := by omega
      have hlt : n / 10 < 10 ^ room := by
        rw [Nat.pow_succ] at h
        omega
      have hpos : 0 < room := by
        cases room with
        | zero => simp at h; omega
        | succ room => exact Nat.succ_pos room
      rw [if_neg hn, if_neg hdiv, ih hlt hpos, List.map_append, List.map_singleton, toNat_digitChar (Nat.mod_lt n (by decide))]

theorem discardsBuf_eq {n : Nat} (h : n ≤ 65535) : discardsBuf n = notice n := by
  rw [discardsBuf, notice, Nat.min_eq_left (by omega), digits_reverse 5 (by omega) (by decide)]

theorem length_discardsBuf {n : Nat} (h : n ≤ 65535) : (discardsBuf n).length ≤ discardsBufSize := by
  have hlen : (Nat.toDigits 10 n).length ≤ 5 := (Nat.length_toDigits_le_iff (by decide) (by decide)).2 (by omega)
  rw [discardsBuf_eq h]
  simp only [notice, discardsPrefix, List.length_append, List.length_map, List.length_cons, List.length_nil, discardsBufSize]
  omega

/-! ## Writing -/

variable {cfg : Config} {t : Buf} {uart written l : List UInt8}

/-- What has been written is in the ring, up to `wptr`, and from `rptr` on still to be sent. -/
structure Holds (cfg : Config) (t : Buf) (uart written : List UInt8) : Prop where
  wptr_lt : t.wptr < cfg.traceBufSize
  rptr_lt : t.rptr < cfg.traceBufSize
  handed : uart ++ unsent cfg t = written
  last : Last t.buf cfg.traceBufSize t.wptr written
  first_turn : written.length < cfg.traceBufSize → t.wptr = written.length

theorem unsentLen_lt (hw : t.wptr < cfg.traceBufSize) (hr : t.rptr < cfg.traceBufSize) :
    unsentLen cfg t < cfg.traceBufSize := by
  unfold unsentLen
  split_ifs <;> omega

theorem wrap_unsentLen (hw : t.wptr < cfg.traceBufSize) (hr : t.rptr < cfg.traceBufSize) :
    wrap cfg.traceBufSize (t.rptr + unsentLen cfg t) = t.wptr := by
  unfold wrap unsentLen
  split_ifs <;> omega

theorem copyIn_wptr (cfg : Config) (marks : Bool) (h : t.wptr + l.length < 2 ^ 16) :
    ((copyIn cfg marks l t).wptr : Int) = wrap cfg.traceBufSize (t.wptr + l.length) := by
  unfold copyIn wrap
  dsimp only
  rw [Nat.mod_eq_of_lt h]
  split_ifs <;> dsimp only <;> omega

theorem copyIn_wrapped (cfg : Config) (marks : Bool) (h : t.wptr + l.length < 2 ^ 16) :
    (copyIn cfg marks l t).wrapped = (t.wrapped || (marks && decide (cfg.traceBufSize ≤ t.wptr + l.length))) := by
  unfold copyIn
  dsimp only
  rw [Nat.mod_eq_of_lt h]
  by_cases hend : t.wptr + l.length ≥ cfg.traceBufSize
  · rw [if_pos hend, decide_eq_true hend, Bool.and_true]
  · rw [if_neg hend, decide_eq_false hend, Bool.and_false, Bool.or_false]

/-- Everything else is unchanged. -/
theorem copyIn_other (cfg : Config) (marks : Bool) (l : List UInt8) (t : Buf) :
    (copyIn cfg marks l t).rptr = t.rptr ∧ (copyIn cfg marks l t).sends = t.sends ∧
      (copyIn cfg marks l t).discards = t.discards ∧ (copyIn cfg marks l t).sending = t.sending ∧
      (copyIn cfg marks l t).in_trace = t.in_trace := by
  unfold copyIn
  dsimp only
  split_ifs <;> exact ⟨rfl, rfl, rfl, rfl, rfl⟩

theorem copyIn_buf (cfg : Config) (marks : Bool) (hw : t.wptr < cfg.traceBufSize) (hl : l.length ≤ cfg.traceBufSize) :
    Written t.buf (copyIn cfg marks l t).buf cfg.traceBufSize t.wptr l := by
  have hfits := cfg.fits
  have hsize : (cfg.traceBufSize + 2 ^ 16 - t.wptr) % 2 ^ 16 = cfg.traceBufSize - t.wptr := by omega
  have hbuf : (copyIn cfg marks l t).buf =
      if cfg.traceBufSize - t.wptr ≥ l.length then store t.buf t.wptr l
      else store (store t.buf t.wptr (l.take (cfg.traceBufSize - t.wptr))) 0 (l.drop (cfg.traceBufSize - t.wptr)) := by
    unfold copyIn
    dsimp only
    rw [hsize]
    by_cases hfit : cfg.traceBufSize - t.wptr ≥ l.length
    · simp only [if_pos hfit, lt_irrefl, if_false, List.take_length]
      split_ifs <;> rfl
    · simp only [if_neg hfit, if_pos (Nat.lt_of_not_le hfit)]
      split_ifs <;> rfl
  rw [hbuf]
  by_cases hfit : cfg.traceBufSize - t.wptr ≥ l.length
  · rw [if_pos hfit]
    exact written_store (by omega)
  · rw [if_neg hfit]
    exact written_stores (by omega) (by omega) (by omega)

/-- A write into the free bytes goes behind what was written. -/
theorem Holds.copyIn (h : Holds cfg t uart written) (marks : Bool) (hroom : unsentLen cfg t + l.length < cfg.traceBufSize)
    (hfits : t.wptr + l.length < 2 ^ 16) :
    Holds cfg (copyIn cfg marks l t) uart (written ++ l) ∧
      unsentLen cfg (Trace.copyIn cfg marks l t) = unsentLen cfg t + l.length ∧
      content (Trace.copyIn cfg marks l t).buf cfg.traceBufSize t.rptr (unsentLen cfg t) = unsent cfg t := by
  have hw := h.wptr_lt
  have hr := h.rptr_lt
  have hwptr := copyIn_wptr cfg marks hfits
  have hwritten := copyIn_buf cfg marks hw (show l.length ≤ cfg.traceBufSize by omega)
  obtain ⟨hrptr, -⟩ := copyIn_other cfg marks l t
  have hstart := wrap_unsentLen hw hr
  have hlt : (Trace.copyIn cfg marks l t).wptr < cfg.traceBufSize := by
    unfold wrap at hwptr
    split_ifs at hwptr <;> omega
  have hlen : unsentLen cfg (Trace.copyIn cfg marks l t) = unsentLen cfg t + l.length := by
    unfold wrap at hwptr hstart
    unfold unsentLen at hroom hstart ⊢
    rw [hrptr]
    split_ifs at hwptr hstart hroom ⊢ <;> omega
  have happend := content_written (hstart.symm ▸ hwritten) ⟨by omega, by omega⟩ (by omega)
  refine ⟨⟨hlt, hrptr ▸ hr, ?_, ?_, ?_⟩, hlen, ?_⟩
  · rw [unsent, hlen, hrptr, happend, ← h.handed, List.append_assoc, unsent]
  · rw [hwptr]
    exact h.last.written hwritten ⟨by omega, by omega⟩ (by omega)
  · intro hturn
    rw [List.length_append] at hturn ⊢
    have := h.first_turn (by omega)
    rw [wrap_of_lt (by omega)] at hwptr
    omega
  · rw [← take_content _ _ _ _ (Nat.le_add_right _ l.length), happend, unsent]
    exact List.take_left' length_content

/-- The flag says whether the ring has been full, when the next write keeps it. -/
theorem Holds.wrapped (h : Holds cfg t uart written) (hwrapped : t.wrapped = true ↔ cfg.traceBufSize ≤ written.length)
    (marks : Bool) (hmarks : marks = false → cfg.traceBufSize ≤ t.wptr + l.length → t.wrapped = true)
    (hfits : t.wptr + l.length < 2 ^ 16) :
    (Trace.copyIn cfg marks l t).wrapped = true ↔ cfg.traceBufSize ≤ (written ++ l).length := by
  rw [copyIn_wrapped cfg marks hfits, List.length_append]
  have hturn := h.first_turn
  by_cases hfull : t.wrapped = true
  · rw [hfull, Bool.true_or]
    exact iff_of_true rfl (Nat.le_add_right_of_le (hwrapped.1 hfull))
  · have hlt : written.length < cfg.traceBufSize := Nat.lt_of_not_le fun hle => hfull (hwrapped.2 hle)
    rw [Bool.eq_false_of_not_eq_true hfull, Bool.false_or, ← hturn hlt, Bool.and_eq_true, decide_eq_true_eq]
    refine ⟨And.right, fun hend => ⟨?_, hend⟩⟩
    by_contra hm
    exact hfull (hmarks (Bool.eq_false_of_not_eq_true hm) hend)

/-- The history buffer is the end of what was written. -/
theorem Holds.history (h : Holds cfg t uart written) (hwrapped : t.wrapped = true ↔ cfg.traceBufSize ≤ written.length) :
    history cfg t = written.drop (written.length - cfg.traceBufSize) := by
  have hw := h.wptr_lt
  unfold Trace.history halTraceGetHistoryBuffer
  rw [if_pos hw]
  by_cases hfull : t.wrapped = true
  · have hsplit : (t.wptr : Int) + (cfg.traceBufSize - t.wptr : Nat) = cfg.traceBufSize := by omega
    have hround : wrap cfg.traceBufSize ((t.wptr : Int) + cfg.traceBufSize) = t.wptr := by
      rw [wrap_of_le (by omega)]
      omega
    rw [if_pos hfull, ← h.last.content_eq ⟨by omega, by omega⟩ ⟨by omega, by omega⟩ hround le_rfl (hwrapped.1 hfull),
      content_eq_spans hsplit (by omega), Nat.sub_sub_self (by omega)]
    rfl
  · have hlt : written.length < cfg.traceBufSize := Nat.lt_of_not_le fun hle => hfull (hwrapped.2 hle)
    have hwptr := h.first_turn hlt
    have hround : wrap cfg.traceBufSize ((0 : Int) + t.wptr) = t.wptr := by
      rw [wrap_of_lt (by omega)]
      omega
    have hall := h.last.content_eq ⟨by omega, by omega⟩ ⟨le_rfl, by omega⟩ hround (by omega) (by omega)
    rw [if_neg hfull, Nat.sub_eq_zero_of_le hlt.le, List.drop_zero]
    rw [hwptr, Nat.sub_self, List.drop_zero, content_eq_span (by omega), ← hwptr] at hall
    exact (List.append_nil _).trans hall

/-- Bytes that are still to be sent go to the UART. -/
theorem Holds.advance (h : Holds cfg t uart written) {n : Nat} (hn : n ≤ unsentLen cfg t) :
    Holds cfg { t with rptr := if t.rptr + n ≥ cfg.traceBufSize then t.rptr + n - cfg.traceBufSize else t.rptr + n }
      (uart ++ content t.buf cfg.traceBufSize t.rptr n) written := by
  have hw := h.wptr_lt
  have hr := h.rptr_lt
  have hlt := unsentLen_lt hw hr
  generalize hrptr : (if t.rptr + n ≥ cfg.traceBufSize then t.rptr + n - cfg.traceBufSize else t.rptr + n) = rptr
  have hr' : rptr < cfg.traceBufSize := by
    subst hrptr
    split_ifs <;> omega
  have hwrap : (rptr : Int) = wrap cfg.traceBufSize (t.rptr + n) := by
    subst hrptr
    unfold wrap
    split_ifs <;> omega
  have hrest : unsentLen cfg { t with rptr } = unsentLen cfg t - n := by
    unfold unsentLen at hn hlt ⊢
    subst hrptr
    dsimp only
    split_ifs at hn hlt ⊢ <;> omega
  refine ⟨hw, hr', ?_, h.last, h.first_turn⟩
  rw [← h.handed, unsent, unsent, hrest, List.append_assoc, hwrap, ← content_append _ _ _ _ _ (by omega), Nat.add_sub_cancel' hn]

/-! ## Sending -/

/-- A transfer of bytes that are still to be sent, with one descriptor or with two. -/
structure Transfer (cfg : Config) (t : Buf) (descs : List Desc) : Prop where
  unsent : t.sends.1 + t.sends.2 ≤ unsentLen cfg t
  inside : t.rptr + t.sends.1 ≤ cfg.traceBufSize
  descs : ∃ next : Nat, (next : Int) = wrap cfg.traceBufSize (t.rptr + t.sends.1) ∧ next + t.sends.2 ≤ cfg.traceBufSize ∧
    descs = if t.sends.2 = 0 then [⟨t.rptr, t.sends.1⟩] else [⟨t.rptr, t.sends.1⟩, ⟨next, t.sends.2⟩]

/-- What the DMA does and has still to do. -/
def Sending (cfg : Config) (d : Dev) : Prop :=
  if d.trace.sending then Transfer cfg d.trace d.dma_desc else unsentLen cfg d.trace = 0

theorem sendSizes_le {wptr rptr : Nat} (hw : wptr < cfg.traceBufSize) (hr : rptr < cfg.traceBufSize) (hne : wptr ≠ rptr) :
    (sendSizes cfg wptr rptr).1 + (sendSizes cfg wptr rptr).2 ≤
        (if wptr ≥ rptr then wptr - rptr else wptr + cfg.traceBufSize - rptr) ∧
      rptr + (sendSizes cfg wptr rptr).1 ≤ cfg.traceBufSize ∧
      (rptr + (sendSizes cfg wptr rptr).1 < cfg.traceBufSize →
        rptr + (sendSizes cfg wptr rptr).1 + (sendSizes cfg wptr rptr).2 ≤ cfg.traceBufSize) ∧
      (sendSizes cfg wptr rptr).2 ≤ cfg.traceBufSize := by
  have hfits := cfg.fits
  have htoEnd : (cfg.traceBufSize + 2 ^ 32 - rptr) % 2 ^ 32 = cfg.traceBufSize - rptr := by omega
  unfold sendSizes
  rw [htoEnd]
  by_cases hwr : wptr > rptr
  · simp only [if_pos hwr]
    split_ifs <;> dsimp only <;> omega
  · simp only [if_neg hwr]
    split_ifs <;> dsimp only <;> omega

/-- `hal_trace_uart_send` starts a transfer of bytes that are still to be sent, unless one goes on. -/
theorem Sending.send {d : Dev} (hw : d.trace.wptr < cfg.traceBufSize) (hr : d.trace.rptr < cfg.traceBufSize)
    (h : d.trace.sending = true → Transfer cfg d.trace d.dma_desc) : Sending cfg (halTraceUartSend cfg d) := by
  obtain ⟨t, descs⟩ := d
  dsimp only at hw hr h
  unfold halTraceUartSend
  dsimp only
  by_cases hstart : !t.sending ∧ t.wptr ≠ t.rptr
  · rw [if_pos (by simpa using hstart)]
    obtain ⟨hunsent, hinside, hlt, hle⟩ := sendSizes_le hw hr hstart.2
    rw [Sending, if_pos rfl]
    refine ⟨hunsent, hinside, _, ?_, ?_, rfl⟩
    · unfold wrap
      dsimp only
      split_ifs <;> omega
    · dsimp only
      split_ifs with hend
      · exact hlt hend
      · omega
  · rw [if_neg (by simpa using hstart), Sending]
    cases hsending : t.sending with
    | true => simpa [hsending] using h hsending
    | false =>
      have heq : t.wptr = t.rptr := by
        by_contra hne
        exact hstart ⟨by simp [hsending], hne⟩
      simp [unsentLen, heq]

theorem send_trace (cfg : Config) (d : Dev) :
    ∃ sending sends, (halTraceUartSend cfg d).trace = { d.trace with sending, sends } := by
  unfold halTraceUartSend
  dsimp only
  by_cases hstart : !d.trace.sending ∧ d.trace.wptr ≠ d.trace.rptr
  · rw [if_pos hstart]
    exact ⟨_, _, rfl⟩
  · rw [if_neg hstart]
    exact ⟨_, _, rfl⟩

/-- The sizes that the handler takes for sent. -/
def Completion.sizes (t : Buf) (descs : List Desc) : Completion → Nat × Nat
  | .done => doneSizes t.sends 0 false false
  | .failed second remain => doneSizes t.sends remain true (!second ∧ descs.length = 2)

theorem handler_eq (cfg : Config) (c : Completion) (t : Buf) (descs : List Desc) :
    c.handler cfg ⟨t, descs⟩ = halTraceUartSend cfg ⟨{ t with
      rptr :=
        let rptr := (t.rptr + ((c.sizes t descs).1 + (c.sizes t descs).2)) % 2 ^ 16
        if rptr ≥ cfg.traceBufSize then rptr - cfg.traceBufSize else rptr
      sends := (0, 0)
      sending := false }, descs⟩ := by
  cases c <;> rfl

theorem doneSizes_error (sends : Nat × Nat) (remain : Nat) (lli : Bool) :
    doneSizes sends remain true lli = if lli ∨ sends.2 = 0 then (sends.1 - remain, 0) else (sends.1, sends.2 - remain) := by
  unfold doneSizes
  simp only [if_true]
  split_ifs <;> congr 1 <;> omega

/-- The handler counts the bytes that the UART got. -/
theorem Transfer.moved {descs : List Desc} (h : Transfer cfg t descs) {c : Completion} (hc : c.possible descs = true) :
    c.moved t.buf descs = content t.buf cfg.traceBufSize t.rptr ((c.sizes t descs).1 + (c.sizes t descs).2) ∧
      (c.sizes t descs).1 + (c.sizes t descs).2 ≤ unsentLen cfg t := by
  obtain ⟨hunsent, hinside, next, hnext, hend, hdescs⟩ := h
  have hone : ∀ n, n ≤ t.sends.1 → content t.buf cfg.traceBufSize t.rptr n = span t.buf t.rptr n :=
    fun n hn => content_eq_span (by omega)
  have htwo : ∀ n, n ≤ t.sends.2 → content t.buf cfg.traceBufSize t.rptr (t.sends.1 + n) =
      span t.buf t.rptr t.sends.1 ++ span t.buf next n := by
    intro n hn
    rw [content_append _ _ _ _ _ (by omega), hone _ le_rfl, ← hnext, content_eq_span (by omega)]
  by_cases hsingle : t.sends.2 = 0
  · rw [if_pos hsingle] at hdescs
    subst hdescs
    cases c with
    | done =>
      refine ⟨?_, hunsent⟩
      simp only [Completion.sizes, doneSizes]
      rw [if_neg (by decide), hsingle, Nat.add_zero, hone _ le_rfl]
      exact List.append_nil _
    | failed second remain =>
      cases second with
      | false =>
        simp only [Completion.sizes, doneSizes_error, hsingle, or_true, if_true, Nat.add_zero]
        exact ⟨(hone _ (Nat.sub_le ..)).symm, by omega⟩
      | true => cases hc
  · rw [if_neg hsingle] at hdescs
    subst hdescs
    cases c with
    | done =>
      refine ⟨?_, hunsent⟩
      simp only [Completion.sizes, doneSizes]
      rw [if_neg (by decide), htwo _ le_rfl]
      exact congrArg _ (List.append_nil _)
    | failed second remain =>
      cases second with
      | false =>
        simp only [Completion.sizes, doneSizes_error, List.length_cons, List.length_nil, Bool.not_false, decide_true, true_or,
          and_self, if_true, Nat.add_zero]
        exact ⟨(hone _ (Nat.sub_le ..)).symm, by omega⟩
      | true =>
        simp only [Completion.sizes, doneSizes_error, Bool.not_true, Bool.false_eq_true, false_and, decide_false, false_or,
          if_neg hsingle]
        exact ⟨(htwo _ (Nat.sub_le ..)).symm, by omega⟩

/-! ## Runs -/

structure Inv (cfg : Config) (s : Sys) : Prop where
  holds : Holds cfg s.dev.trace s.uart (spec s.calls).written
  sending : Sending cfg s.dev
  wrapped : s.dev.trace.wrapped = true ↔ cfg.traceBufSize ≤ (spec s.calls).written.length
  discards : s.dev.trace.discards = (spec s.calls).rejected
  discards_le : s.dev.trace.discards ≤ 65535
  in_trace : s.dev.trace.in_trace = false

theorem spec_append (calls : List (List UInt8 × Bool)) (c : List UInt8 × Bool) : spec (calls ++ [c]) = (spec calls).call c :=
  List.foldl_concat ..

theorem Inv.init {s : Sys} (h : Init s) : Inv cfg s := by
  obtain ⟨⟨⟨buf, wptr, rptr, sends, discards, sending, in_trace, wrapped⟩, descs⟩, uart, calls⟩ := s
  obtain ⟨hw, hr, hsends, hdiscards, hsending, hin, hwrapped, huart, hcalls⟩ := h
  dsimp only at hw hr hsends hdiscards hsending hin hwrapped huart hcalls
  subst hw hr hsends hdiscards hsending hin hwrapped huart hcalls
  refine ⟨⟨cfg.pos, cfg.pos, ?_, last_nil .., fun _ => rfl⟩, ?_, ?_, rfl, Nat.zero_le _, rfl⟩
  · rfl
  · rfl
  · exact iff_of_false nofun (Nat.not_le.2 cfg.pos)

/-- What holds before a transfer is started holds after it. -/
theorem Inv.send {d : Dev} {calls : List (List UInt8 × Bool)} (hholds : Holds cfg d.trace uart (spec calls).written)
    (htransfer : d.trace.sending = true → Transfer cfg d.trace d.dma_desc)
    (hwrapped : d.trace.wrapped = true ↔ cfg.traceBufSize ≤ (spec calls).written.length)
    (hdiscards : d.trace.discards = (spec calls).rejected) (hle : d.trace.discards ≤ 65535) (hin : d.trace.in_trace = false) :
    Inv cfg ⟨halTraceUartSend cfg d, uart, calls⟩ := by
  have hsending := Sending.send hholds.wptr_lt hholds.rptr_lt htransfer
  obtain ⟨sending, sends, htrace⟩ := send_trace cfg d
  obtain ⟨hw, hr, hhanded, hlast, hturn⟩ := hholds
  refine ⟨?_, hsending, ?_, ?_, ?_, ?_⟩ <;> dsimp only <;> rw [htrace]
  · exact ⟨hw, hr, hhanded, hlast, hturn⟩
  · exact hwrapped
  · exact hdiscards
  · exact hle
  · exact hin

/-- The end of a transfer moves bytes from the ring to the UART. -/
theorem Inv.complete {s : Sys} (h : Inv cfg s) {c : Completion} (hsending : s.dev.trace.sending = true)
    (hpossible : c.possible s.dev.dma_desc = true) (hin : InBounds cfg (.complete c) s) :
    Inv cfg { s with dev := c.handler cfg s.dev, uart := s.uart ++ c.moved s.dev.trace.buf s.dev.dma_desc } := by
  obtain ⟨⟨t, descs⟩, uart, calls⟩ := s
  obtain ⟨hholds, hsend, hwrapped, hdiscards, hle, htrace⟩ := h
  dsimp only [InBounds] at *
  rw [Sending, if_pos hsending] at hsend
  obtain ⟨hmoved, hunsent⟩ := hsend.moved hpossible
  rw [hmoved, length_content] at hin
  rw [hmoved, handler_eq]
  generalize (c.sizes t descs).1 + (c.sizes t descs).2 = n at *
  rw [Nat.mod_eq_of_lt hin]
  obtain ⟨hw, hr, hhanded, hlast, hturn⟩ := hholds.advance hunsent
  exact Inv.send ⟨hw, hr, hhanded, hlast, hturn⟩ nofun hwrapped hdiscards hle htrace

/-! ## Messages -/

theorem avail_eq (hw : t.wptr < cfg.traceBufSize) (hr : t.rptr < cfg.traceBufSize) :
    avail cfg t = cfg.traceBufSize - 1 - unsentLen cfg t := by
  have hfits := cfg.fits
  unfold avail unsentLen
  split_ifs <;> omega

/-- The bytes in front of the next message. -/
def noticeBytes (t : Buf) : List UInt8 := if t.discards = 0 then [] else notice t.discards

theorem length_noticeBytes (hle : t.discards ≤ 65535) : (noticeBytes t).length = noticeLen t := by
  unfold noticeBytes noticeLen
  split_ifs
  · rfl
  · rw [discardsBuf_eq hle]

theorem noticeLen_le (hle : t.discards ≤ 65535) : noticeLen t ≤ if t.discards = 0 then 0 else discardsBufSize := by
  unfold noticeLen
  split_ifs
  · exact le_rfl
  · exact length_discardsBuf hle

/-- An accepted message and its notice fit into the free bytes. -/
theorem room_of_accepted {len : Nat} (hw : t.wptr < cfg.traceBufSize) (hr : t.rptr < cfg.traceBufSize)
    (hle : t.discards ≤ 65535) (htrace : t.in_trace = false) (hrejects : rejects cfg len t = false)
    (hlen : t.discards ≠ 0 → len + discardsBufSize < 2 ^ 32) :
    unsentLen cfg t + noticeLen t + len < cfg.traceBufSize := by
  have hlt := unsentLen_lt hw hr
  have hnotice := noticeLen_le hle
  have havail : outLen len t ≤ avail cfg t := by
    simpa [rejects, htrace] using hrejects
  rw [avail_eq hw hr, outLen] at havail
  by_cases hd : t.discards = 0
  · rw [if_neg (not_not.2 hd)] at havail
    rw [if_pos hd] at hnotice
    omega
  · rw [if_pos hd, Nat.mod_eq_of_lt (hlen hd)] at havail
    rw [if_neg hd] at hnotice
    omega

/-- The buffer behind the notice, if there is one. -/
def noticed (cfg : Config) (t : Buf) : Buf :=
  if t.discards ≠ 0 then { halTracePrintDiscards cfg t.discards t with discards := 0 } else t

/-- Everything else is unchanged. -/
theorem noticed_other (cfg : Config) (t : Buf) :
    (noticed cfg t).rptr = t.rptr ∧ (noticed cfg t).sends = t.sends ∧ (noticed cfg t).discards = 0 ∧
      (noticed cfg t).sending = t.sending ∧ (noticed cfg t).in_trace = t.in_trace := by
  unfold noticed
  split_ifs with hd
  · obtain ⟨hrptr, hsends, -, hsending, htrace⟩ := copyIn_other cfg false (discardsBuf t.discards) t
    exact ⟨hrptr, hsends, rfl, hsending, htrace⟩
  · exact ⟨rfl, rfl, not_not.1 hd, rfl, rfl⟩

/-- The notice goes into the free bytes. -/
structure Noticed (cfg : Config) (t t' : Buf) (uart written : List UInt8) : Prop where
  holds : Holds cfg t' uart (written ++ noticeBytes t)
  len : unsentLen cfg t' = unsentLen cfg t + noticeLen t
  kept : content t'.buf cfg.traceBufSize t.rptr (unsentLen cfg t) = unsent cfg t
  wrapped : t'.wrapped = true ↔ cfg.traceBufSize ≤ (written ++ noticeBytes t).length
  wptr : (t'.wptr : Int) = wrap cfg.traceBufSize (t.wptr + noticeLen t)

theorem Holds.noticed (h : Holds cfg t uart written) (hwrapped : t.wrapped = true ↔ cfg.traceBufSize ≤ written.length)
    (hle : t.discards ≤ 65535) (hroom : unsentLen cfg t + noticeLen t < cfg.traceBufSize)
    (hfits : t.wptr + noticeLen t < 2 ^ 16) (hmark : cfg.traceBufSize ≤ t.wptr + noticeLen t → t.wrapped = true) :
    Noticed cfg t (noticed cfg t) uart written := by
  have hbytes := length_noticeBytes hle
  by_cases hd : t.discards = 0
  · have hlen : noticeLen t = 0 := if_pos hd
    have hnone : noticeBytes t = [] := if_pos hd
    have hsame : Trace.noticed cfg t = t := if_neg (not_not.2 hd)
    rw [hsame]
    refine ⟨?_, ?_, rfl, ?_, ?_⟩
    · rwa [hnone, List.append_nil]
    · rw [hlen, Nat.add_zero]
    · rwa [hnone, List.append_nil]
    · have hw := h.wptr_lt
      rw [hlen, wrap_of_lt (by omega)]
      omega
  · have hcopied : Trace.noticed cfg t = { Trace.copyIn cfg false (noticeBytes t) t with discards := 0 } := by
      rw [Trace.noticed, if_pos hd, noticeBytes, if_neg hd, ← discardsBuf_eq hle]
      rfl
    rw [← hbytes] at hroom hfits hmark
    obtain ⟨hholds, hlen, hkept⟩ := h.copyIn false hroom hfits
    have hflag := h.wrapped hwrapped false (fun _ => hmark) hfits
    have hwptr := copyIn_wptr cfg false hfits
    obtain ⟨hw, hr, hhanded, hlast, hturn⟩ := hholds
    rw [hcopied]
    rw [hbytes] at hlen hwptr
    exact ⟨⟨hw, hr, hhanded, hlast, hturn⟩, hlen, hkept, hflag, hwptr⟩

theorem Transfer.mono {t' : Buf} {descs : List Desc} (h : Transfer cfg t descs) (hrptr : t'.rptr = t.rptr)
    (hsends : t'.sends = t.sends) (hlen : unsentLen cfg t ≤ unsentLen cfg t') : Transfer cfg t' descs := by
  obtain ⟨hunsent, hinside, hdescs⟩ := h
  rw [← hrptr, ← hsends] at hinside hdescs
  exact ⟨hsends ▸ hunsent.trans hlen, hinside, hdescs⟩

theorem output_accepted {buf : List UInt8} {d : Dev} (htrace : d.trace.in_trace = false)
    (hrejects : rejects cfg buf.length d.trace = false) :
    (halTraceOutput cfg buf d).2 = halTraceUartSend cfg { d with trace := copyIn cfg true buf (noticed cfg d.trace) } := by
  simp [halTraceOutput, htrace, hrejects, noticed]

theorem output_rejected {buf : List UInt8} {d : Dev} (htrace : d.trace.in_trace = false)
    (hrejects : rejects cfg buf.length d.trace = true) :
    (halTraceOutput cfg buf d).2 = { d with trace := { d.trace with
      discards := if d.trace.discards < 2 ^ 16 - 1 then d.trace.discards + 1 else d.trace.discards } } := by
  simp [halTraceOutput, htrace, hrejects]

/-- The caller is told whether the message was accepted. -/
theorem output_value (cfg : Config) (buf : List UInt8) (d : Dev) :
    (halTraceOutput cfg buf d).1 = if rejects cfg buf.length d.trace then 0 else buf.length := by
  unfold halTraceOutput
  dsimp only
  split_ifs <;> rfl

/-- A message keeps the invariant and the bytes that are still to be sent. -/
theorem Inv.output {s : Sys} (h : Inv cfg s) {buf : List UInt8} (hin : InBounds cfg (.output buf) s) :
    let dev := (halTraceOutput cfg buf s.dev).2
    Inv cfg { s with dev, calls := s.calls ++ [(buf, !rejects cfg buf.length s.dev.trace)] } ∧
      content dev.trace.buf cfg.traceBufSize s.dev.trace.rptr (unsentLen cfg s.dev.trace) = unsent cfg s.dev.trace := by
  obtain ⟨⟨t, descs⟩, uart, calls⟩ := s
  obtain ⟨hholds, hsend, hwrapped, hdiscards, hle, htrace⟩ := h
  dsimp only [InBounds] at *
  cases hrejects : rejects cfg buf.length t with
  | true =>
    rw [output_rejected htrace hrejects]
    refine ⟨?_, rfl⟩
    obtain ⟨hw, hr, hhanded, hlast, hturn⟩ := hholds
    have hwritten : (spec (calls ++ [(buf, false)])).written = (spec calls).written := by
      rw [spec_append]
      rfl
    have hrejected : (spec (calls ++ [(buf, false)])).rejected = min (t.discards + 1) 65535 := by
      rw [spec_append, hdiscards]
      rfl
    refine ⟨?_, ?_, ?_, ?_, ?_, htrace⟩
    · rw [Bool.not_true, hwritten]
      exact ⟨hw, hr, hhanded, hlast, hturn⟩
    · unfold Sending at hsend ⊢
      dsimp only at hsend ⊢
      generalize (if t.discards < 2 ^ 16 - 1 then t.discards + 1 else t.discards) = discards
      split_ifs at hsend ⊢
      · exact hsend.mono rfl rfl le_rfl
      · exact hsend
    · rw [Bool.not_true, hwritten]
      exact hwrapped
    · rw [Bool.not_true, hrejected]
      dsimp only
      split_ifs <;> omega
    · dsimp only
      split_ifs <;> omega
  | false =>
    rw [output_accepted htrace hrejects]
    obtain ⟨hlong, hnotice, hmark, hfits⟩ := hin hrejects
    have hroom := room_of_accepted hholds.wptr_lt hholds.rptr_lt hle htrace hrejects hlong
    have hnoticed := hholds.noticed hwrapped hle (by omega) hnotice hmark
    obtain ⟨hrptr, hsends, hzero, hsending, htrace'⟩ := noticed_other cfg t
    have hfits' : (noticed cfg t).wptr + buf.length < 2 ^ 16 := by
      have := hnoticed.wptr
      omega
    have hroom' : unsentLen cfg (noticed cfg t) + buf.length < cfg.traceBufSize := by
      rw [hnoticed.len]
      exact hroom
    obtain ⟨hholds', hlen, hkept⟩ := hnoticed.holds.copyIn true hroom' hfits'
    have hflag := hnoticed.holds.wrapped hnoticed.wrapped true nofun hfits'
    obtain ⟨hrptr', hsends', hzero', hsending', htrace''⟩ := copyIn_other cfg true buf (noticed cfg t)
    have hspec : spec (calls ++ [(buf, true)]) = ⟨0, (spec calls).written ++ noticeBytes t ++ buf⟩ := by
      rw [spec_append, Spec.call, if_pos rfl, ← hdiscards]
      rfl
    refine ⟨?_, ?_⟩
    · rw [Bool.not_false]
      apply Inv.send
      · rw [hspec]
        exact hholds'
      · intro hon
        dsimp only at hon ⊢
        rw [hsending', hsending] at hon
        rw [Sending, if_pos hon] at hsend
        refine hsend.mono (hrptr'.trans hrptr) (hsends'.trans hsends) ?_
        rw [hlen, hnoticed.len]
        exact Nat.le_add_right_of_le (Nat.le_add_right ..)
      · rw [hspec]
        exact hflag
      · rw [hspec]
        exact hzero'.trans hzero
      · dsimp only
        rw [hzero', hzero]
        exact Nat.zero_le _
      · exact htrace''.trans (htrace'.trans htrace)
    · obtain ⟨sending, sends, hsent⟩ := send_trace cfg ⟨copyIn cfg true buf (noticed cfg t), descs⟩
      dsimp only at hsent ⊢
      rw [hsent]
      dsimp only
      have hle' : unsentLen cfg t ≤ unsentLen cfg (noticed cfg t) := by
        rw [hnoticed.len]
        exact Nat.le_add_right ..
      rw [← take_content _ _ _ _ hle', ← hrptr, hkept, unsent, take_content _ _ _ _ hle', hrptr]
      exact hnoticed.kept

/-- The step lemma. -/
theorem Inv.step {s s' : Sys} {e : Event} (h : Inv cfg s) (hin : InBounds cfg e s) (hs : step cfg e s = some s') :
    Inv cfg s' := by
  cases e with
  | output buf =>
    simp only [Trace.step] at hs
    split_ifs at hs
    cases hs
    exact (h.output hin).1
  | complete c =>
    simp only [Trace.step] at hs
    split_ifs at hs with hc
    cases hs
    exact h.complete hc.1 hc.2 hin

theorem Inv.lawful {s : Sys} (h : Inv cfg s) : Lawful cfg s where
  handed := h.holds.handed
  kept buf s' hin hs := by
    simp only [Trace.step] at hs
    split_ifs at hs
    cases hs
    exact (h.output hin).2
  drained hidle := by
    have hsend := h.sending
    rw [Sending, if_neg (by simp [hidle])] at hsend
    rw [unsent, hsend]
    rfl
  history := h.holds.history h.wrapped

instance (cfg : Config) (e : Event) (s : Sys) : Decidable (InBounds cfg e s) :=
  match e with
  | .output _ => inferInstanceAs (Decidable (_ → _ ∧ _))
  | .complete _ => inferInstanceAs (Decidable (_ < _))

/-- In every run in bounds the UART gets what the specification says. -/
theorem ring_agrees {s : Sys} {evs : List Event} (h : Run (step cfg) (InBounds cfg) Init s evs) : Lawful cfg s :=
  (h.inv (Inv cfg) (fun _ => Inv.init) fun _ _ _ hinv hin hs => hinv.step hin hs).lawful

/-- In a buffer of at most half their range the pointers do not overflow. -/
theorem Inv.inBounds_of_small {s : Sys} (h : Inv cfg s) (hsmall : cfg.traceBufSize ≤ 2 ^ 15) :
    (∀ c : Completion, s.dev.trace.sending = true → c.possible s.dev.dma_desc = true → InBounds cfg (.complete c) s) ∧
    ∀ buf : List UInt8, InBounds cfg (.output buf) s ↔ (rejects cfg buf.length s.dev.trace = false →
      (s.dev.trace.discards ≠ 0 → buf.length + discardsBufSize < 2 ^ 32) ∧
        (cfg.traceBufSize ≤ s.dev.trace.wptr + noticeLen s.dev.trace → s.dev.trace.wrapped = true)) := by
  have hw := h.holds.wptr_lt
  have hr := h.holds.rptr_lt
  refine ⟨fun c hsending hpossible => ?_, fun buf => ⟨fun hin hrejects => ?_, fun hin hrejects => ?_⟩⟩
  · have hsend := h.sending
    rw [Sending, if_pos hsending] at hsend
    obtain ⟨hmoved, hunsent⟩ := hsend.moved hpossible
    have hlt := unsentLen_lt hw hr
    dsimp only [InBounds]
    rw [hmoved, length_content]
    omega
  · obtain ⟨hlong, -, hmark, -⟩ := hin hrejects
    exact ⟨hlong, hmark⟩
  · obtain ⟨hlong, hmark⟩ := hin hrejects
    have hroom := room_of_accepted hw hr h.discards_le h.in_trace hrejects hlong
    refine ⟨hlong, by omega, hmark, ?_⟩
    unfold wrap
    split_ifs <;> omega

/-- A ring of 20 bytes after `hal_trace_open`. -/
def opened : Sys := ⟨⟨⟨fun _ => 0, 0, 0, (0, 0), 0, false, false, false⟩, []⟩, [], []⟩

def small : Config := ⟨20, by decide, by decide⟩

/-- A transfer of two descriptors that ends in an error, and a rejected message. -/
theorem ring_agrees_error : ∃ s evs, Run (step small) (InBounds small) Init s evs ∧
    (s.uart = List.replicate 21 65 ∧ unsent small s.dev.trace = 65 :: notice 1 ++ [66]) ∧ Lawful small s := by
  obtain ⟨s, hrun, hgood⟩ := exists_run_of_check (step small) (InBounds small) Init (some opened)
    [.output (List.replicate 10 65), .complete .done, .output (List.replicate 12 65), .output (List.replicate 20 67),
      .complete (.failed true 1), .output [66]]
    (fun s => s.uart = List.replicate 21 65 ∧ unsent small s.dev.trace = 65 :: notice 1 ++ [66])
    (by rintro _ ⟨⟩; exact ⟨rfl, rfl, rfl, rfl, rfl, rfl, rfl, rfl, rfl⟩) (by decide +kernel)
  exact ⟨s, _, hrun, of_decide_eq_true hgood, ring_agrees hrun⟩

/-- The first bytes to reach the end of the buffer are those of a notice: the history is one byte long. -/
theorem history_lost : ∃ s evs, Run (step small) (fun _ _ => True) Init s evs ∧
    ((spec s.calls).written = List.replicate 10 65 ++ notice 1 ++ [66] ∧ history small s.dev.trace = [66]) ∧
    ¬ Lawful small s := by
  obtain ⟨s, hrun, hgood⟩ := exists_run_of_check (step small) (fun _ _ => True) Init (some opened)
    [.output (List.replicate 10 65), .complete .done, .output (List.replicate 20 67), .output [66]]
    (fun s => (spec s.calls).written = List.replicate 10 65 ++ notice 1 ++ [66] ∧ history small s.dev.trace = [66])
    (by rintro _ ⟨⟩; exact ⟨rfl, rfl, rfl, rfl, rfl, rfl, rfl, rfl, rfl⟩) (by decide +kernel)
  have hbad : (spec s.calls).written = List.replicate 10 65 ++ notice 1 ++ [66] ∧ history small s.dev.trace = [66] :=
    of_decide_eq_true hgood
  refine ⟨s, _, hrun, hbad, fun h => ?_⟩
  have hhistory := h.history
  rw [hbad.1, hbad.2] at hhistory
  exact absurd (congrArg List.length hhistory) (by decide +kernel)

end Hal.Trace
