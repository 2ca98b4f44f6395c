import LittleBuddy.A2dp.CpDecode
/-!
# Concealment of refused AAC frames

When the AAC decoder refuses a frame, `a2dp_cp_aac_lc_cp_decode` consumes it
without PCM, and decodes the next one without consuming it. The flag for this
is a variable of the call, and is not cleared before the call ends. So the time is
kept if the refused frame is the last one of its output frame.
-/
open Bytes Runs NorMem
open A2dp.CpOut (DecState idleCnt)

namespace A2dp.CpDecode

/-! ## Time -/

/-- The PCM that has been produced: of the completed output frames and the one that is being filled. -/
def Account.bytes (a : Account) : Nat := (a.completed.map List.length).sum + a.filled

/-- As many PCM frames of `k` bytes as consumed input frames, except for a refused
frame that has been consumed and not yet been concealed. -/
def KeepsTime (k : Nat) (a : Account) : Prop :=
  a.bytes = k * a.consumed.length ∨ a.lastFailed = true ∧ a.bytes + k = k * a.consumed.length

/-- An attempt decodes `k` bytes or is refused, and no two are refused one after the other. -/
def attempts (k : Nat) : Event AacInInfo AacAnswer → Cp AacInInfo → Prop
  | .turn a, s => (∃ pcm, a = .decoded pcm ∧ pcm.length = k) ∨ a = .decodeFailed ∧ s.lastFailed = false
  | _, _ => True

/-- A refused frame is the last for which its output frame has room, and the input
does not run out in a call that has decoded a frame, or has one to conceal. -/
def RefusedLast (k : Nat) : Event AacInInfo AacAnswer → Cp AacInInfo → Prop
  | .turn a, s => ∀ c, s.call = some c →
    (s.in_frames = [] → c.dataLen = 0 ∧ c.need_refill = false) ∧
    (s.in_frames ≠ [] → a = .decodeFailed → c.dataLen + k = c.dec_len)
  | _, _ => True

/-- The account, with a frame to conceal or without one. -/
structure InTime (buffer_bytes k : Nat) (a : Account) : Prop where
  time : a.need_refill = false → a.bytes = k * a.consumed.length
  concealing : a.need_refill = true →
    a.lastFailed = true ∧ a.filled + k = buffer_bytes ∧ a.bytes + k = k * a.consumed.length

section InTime

variable {buffer_bytes k : Nat} {a : Account} {s s' : Cp AacInInfo} {c : Call}

theorem InTime.keepsTime (h : InTime buffer_bytes k a) : KeepsTime k a := by
  cases hrefill : a.need_refill with
  | false => exact .inl (h.time hrefill)
  | true =>
    obtain ⟨hlast, -, hbytes⟩ := h.concealing hrefill
    exact .inr ⟨hlast, hbytes⟩

/-- The bytes of a completed frame have been counted before. -/
theorem bytes_complete (a : Account) (pcm : Nat → UInt8) : (a.complete pcm).bytes = a.bytes := by
  simp only [Account.bytes, Account.complete, List.map_append, List.sum_append, List.map_singleton, List.sum_singleton,
    length_read, Nat.add_zero]

theorem InTime.of_bytes (h : a.bytes = k * a.consumed.length) (hrefill : a.need_refill = false) :
    InTime buffer_bytes k a :=
  ⟨fun _ => h, fun h => absurd (hrefill.symm.trans h) Bool.false_ne_true⟩

/-- Behind a decoded frame the loop goes on, or the output frame is complete. -/
theorem goOn_inTime (hgo : goOn buffer_bytes false c s = some s') (hfilling : Filling buffer_bytes k c s)
    (hheap : buffer_bytes < 2 ^ 16) (htime : (s.accountIn c).bytes = k * s.consumed.length)
    (hrefill : (s.accountIn c).filled < buffer_bytes → c.need_refill = false) :
    Shape buffer_bytes k s' ∧ InTime buffer_bytes k s'.account := by
  obtain ⟨hshape, ⟨hroom, haccount⟩ | ⟨-, haccount⟩⟩ := hfilling.goOn hheap hgo
  · refine ⟨hshape, ?_⟩
    rw [haccount]
    exact .of_bytes htime (hrefill hroom)
  · refine ⟨hshape, ?_⟩
    rw [haccount]
    exact .of_bytes ((bytes_complete _ _).trans htime) rfl

theorem turn_decoded (hdvd : k ∣ buffer_bytes) (hheap : buffer_bytes < 2 ^ 16)
    (h : Shape buffer_bytes k s ∧ InTime buffer_bytes k s.account) (hcall : s.call = some c) {info : AacInInfo}
    {rest : List AacInInfo} (hin : s.in_frames = info :: rest) {pcm : List UInt8} (hlen : pcm.length = k)
    (hstep : aacTurn buffer_bytes (.decoded pcm) s = some s') :
    Shape buffer_bytes k s' ∧ InTime buffer_bytes k s'.account := by
  obtain ⟨hshape, htime⟩ := h
  obtain ⟨hfilling, hlt⟩ := hshape.filling hcall
  rw [account_call hcall] at htime
  cases hrefill : c.need_refill with
  | false =>
    rw [aacTurn_decoded pcm hcall hin hrefill] at hstep
    split at hstep
    case isFalse => cases hstep
    have hnoted := hfilling.noted hlt hdvd hlen info aacOutputFrameSamples
    have hbytes := htime.time hrefill
    refine goOn_inTime hstep (hnoted.congr rfl rfl) hheap ?_ (fun _ => hrefill)
    change (s.completed.map List.length).sum +
      ((noteFrame info aacOutputFrameSamples (writePcm pcm c s)).out.pcm_len + (c.dataLen + pcm.length)) =
        k * (s.consumed ++ [pcm]).length
    rw [noted_out, List.length_append, List.length_singleton, Nat.mul_succ, hlen]
    simp only [Account.bytes, Cp.accountIn] at hbytes ⊢
    omega
  | true =>
    -- The frame is decoded for the refused one, and fills the output frame.
    rw [aacTurn_refill pcm hcall hin hrefill] at hstep
    split at hstep
    case isFalse => cases hstep
    have hnoted := hfilling.noted hlt hdvd hlen { info with sequenceNumber := 0xFFFF } aacOutputFrameSamples
    obtain ⟨-, hlast, hbytes⟩ := htime.concealing hrefill
    have hout := noted_out s { info with sequenceNumber := 0xFFFF } aacOutputFrameSamples pcm c
    refine goOn_inTime hstep (hnoted.congr rfl rfl) hheap ?_ ?_
    · change (s.completed.map List.length).sum +
        ((noteFrame { info with sequenceNumber := 0xFFFF } aacOutputFrameSamples (writePcm pcm c s)).out.pcm_len +
          (c.dataLen + pcm.length)) = k * s.consumed.length
      rw [hout, hlen]
      simp only [Account.bytes, Cp.accountIn] at hbytes ⊢
      omega
    · intro hroom
      change (noteFrame { info with sequenceNumber := 0xFFFF } aacOutputFrameSamples (writePcm pcm c s)).out.pcm_len +
        (c.dataLen + pcm.length) < buffer_bytes at hroom
      rw [hout, hlen] at hroom
      simp only [Cp.accountIn] at hlast hroom
      omega

theorem turn_refused (h : Shape buffer_bytes k s ∧ InTime buffer_bytes k s.account) (hcall : s.call = some c)
    {info : AacInInfo} {rest : List AacInInfo} (hin : s.in_frames = info :: rest) (hlast : s.lastFailed = false)
    (hroom : c.dataLen + k = c.dec_len) (hstep : aacTurn buffer_bytes .decodeFailed s = some s') :
    Shape buffer_bytes k s' ∧ InTime buffer_bytes k s'.account := by
  obtain ⟨hshape, htime⟩ := h
  obtain ⟨hfilling, hlt⟩ := hshape.filling hcall
  rw [account_call hcall] at htime
  have hrefill : c.need_refill = false := by
    cases hrefill : c.need_refill with
    | false => rfl
    | true => exact absurd (hlast.symm.trans (htime.concealing hrefill).1) Bool.false_ne_true
  rw [aacTurn_failed hcall hin hrefill] at hstep
  cases hstep
  have hfilling' : Filling buffer_bytes k { c with need_refill := true } s :=
    ⟨hfilling.working, hfilling.room, hfilling.level⟩
  refine ⟨.of_filling (hfilling'.congr rfl rfl) hlt rfl, ?_⟩
  rw [account_call rfl]
  have hbytes := htime.time hrefill
  refine ⟨fun h => absurd h.symm Bool.false_ne_true, fun _ => ⟨rfl, ?_, ?_⟩⟩
  · have hsum := hfilling.room
    change s.out.pcm_len + c.dataLen + k = buffer_bytes
    omega
  · change (s.completed.map List.length).sum + (s.out.pcm_len + c.dataLen) + k = k * (s.consumed ++ [[]]).length
    rw [List.length_append, List.length_singleton, Nat.mul_succ]
    exact congrArg (· + k) hbytes

theorem aacTurn_inTime (hdvd : k ∣ buffer_bytes) (hheap : buffer_bytes < 2 ^ 16) {answer : AacAnswer}
    (h : Shape buffer_bytes k s ∧ InTime buffer_bytes k s.account)
    (hcond : attempts k (.turn answer) s ∧ RefusedLast k (.turn answer) s)
    (hstep : aacTurn buffer_bytes answer s = some s') : Shape buffer_bytes k s' ∧ InTime buffer_bytes k s'.account := by
  obtain ⟨hattempt, hcond⟩ := hcond
  cases hcall : s.call with
  | none =>
    rw [aacTurn, hcall] at hstep
    cases hstep
  | some c =>
    obtain ⟨hempty, hrefused⟩ := hcond c hcall
    cases hin : s.in_frames with
    | nil =>
      obtain ⟨hzero, hrefill⟩ := hempty hin
      obtain ⟨hfilling, hlt⟩ := h.1.filling hcall
      have htime := h.2
      rw [account_call hcall] at htime
      rw [aacTurn_underflow hcall hin] at hstep
      cases hstep
      obtain ⟨hshape, haccount⟩ := hfilling.underflow hlt (by rw [setOut_self hzero])
      refine ⟨hshape, ?_⟩
      rw [haccount]
      exact .of_bytes (htime.time hrefill) rfl
    | cons info rest =>
      have hsome : s.in_frames ≠ [] := by rw [hin]; exact List.cons_ne_nil _ _
      rcases hattempt with ⟨pcm, rfl, hlen⟩ | ⟨rfl, hlast⟩
      · exact turn_decoded hdvd hheap h hcall hin hlen hstep
      · exact turn_refused h hcall hin hlast (hrefused hsome rfl) hstep

end InTime

theorem run_inTime {buffer_bytes k delay : Nat} (hdvd : k ∣ buffer_bytes) (hheap : buffer_bytes < 2 ^ 16)
    {s : Cp AacInInfo} {evs : List (Event AacInInfo AacAnswer)}
    (h : Run (aacStep buffer_bytes) (fun e s => attempts k e s ∧ RefusedLast k e s) (Start delay) s evs) :
    Shape buffer_bytes k s ∧ InTime buffer_bytes k s.account := by
  refine h.inv (fun s => Shape buffer_bytes k s ∧ InTime buffer_bytes k s.account) ?_ ?_
  · intro s hstart
    obtain ⟨hshape, haccount⟩ := hstart.account
    refine ⟨hshape, ?_⟩
    rw [haccount]
    exact .of_bytes rfl rfl
  · exact step_account (InTime buffer_bytes k) (fun e s => attempts k e s ∧ RefusedLast k e s)
      (fun _ _ => aacEnter_entered) (fun _ _ _ => aacTurn_inTime hdvd hheap)

/-! ## A refused frame that is not the last -/

section Refill

variable {buffer_bytes k : Nat} {s : Cp AacInInfo} {c : Call} {info : AacInInfo} {rest : List AacInInfo}
  {pcm : List UInt8}

/-- While the output frame has room, the same input frame is decoded once more. -/
theorem refill_goes_on (hdvd : k ∣ buffer_bytes) (hsize : k / 4 = aacOutputFrameSamples) (h : Filling buffer_bytes k c s)
    (hcall : s.call = some c) (hrefill : c.need_refill = true) (hin : s.in_frames = info :: rest) (hlen : pcm.length = k)
    (hlt : c.dataLen + k < c.dec_len) :
    ∃ s', aacTurn buffer_bytes (.decoded pcm) s = some s' ∧
      Filling buffer_bytes k { c with dataLen := c.dataLen + k } s' ∧ s'.call = some { c with dataLen := c.dataLen + k } ∧
      s'.in_frames = { info with sequenceNumber := 0xFFFF } :: rest ∧ s'.completed = s.completed ∧
      s'.consumed = s.consumed := by
  have hnoted := h.noted (by omega) hdvd hlen { info with sequenceNumber := 0xFFFF } aacOutputFrameSamples
  rw [aacTurn_refill pcm hcall hin hrefill, hlen, if_pos hsize, goOn, if_pos ⟨hlt, rfl⟩]
  rw [hlen] at hnoted
  exact ⟨_, rfl, hnoted.congr rfl rfl, rfl, rfl, rfl, rfl⟩

/-- In the end the output frame is complete, and the input frame is still there. -/
theorem refill_ends (hheap : buffer_bytes < 2 ^ 16) (hdvd : k ∣ buffer_bytes) (hsize : k / 4 = aacOutputFrameSamples)
    (h : Filling buffer_bytes k c s) (hcall : s.call = some c) (hrefill : c.need_refill = true)
    (hin : s.in_frames = info :: rest) (hlen : pcm.length = k) (hlt : c.dataLen < c.dec_len)
    (hfull : c.dataLen + k = c.dec_len) :
    ∃ s', aacTurn buffer_bytes (.decoded pcm) s = some s' ∧
      s'.account.bytes = (s.completed.map List.length).sum + buffer_bytes ∧ s'.account.consumed = s.consumed := by
  have hnoted := h.noted hlt hdvd hlen { info with sequenceNumber := 0xFFFF } aacOutputFrameSamples
  have hroom := h.room
  rw [aacTurn_refill pcm hcall hin hrefill, hlen, if_pos hsize]
  rw [hlen] at hnoted
  generalize hs₁ : ({ noteFrame { info with sequenceNumber := 0xFFFF } aacOutputFrameSamples (writePcm pcm c s) with
    in_frames := { info with sequenceNumber := 0xFFFF } :: rest, lastFailed := false } : Cp AacInInfo) = s₁
  have hfilling : Filling buffer_bytes k { c with dataLen := c.dataLen + k } s₁ := by
    rw [← hs₁]
    exact hnoted.congr rfl rfl
  obtain ⟨s', hgo⟩ := hfilling.goOn_some
  have hfilled := hfilling.room
  dsimp only at hfilled
  refine ⟨s', hgo, ?_⟩
  obtain ⟨-, ⟨hless, -⟩ | ⟨-, haccount⟩⟩ := hfilling.goOn hheap hgo
  · simp only [Cp.accountIn] at hless
    omega
  · rw [haccount, bytes_complete]
    simp only [Account.bytes, Cp.accountIn, Account.complete]
    have hcompleted : s₁.completed = s.completed := by rw [← hs₁]; rfl
    have hconsumed : s₁.consumed = s.consumed := by rw [← hs₁]; rfl
    rw [hcompleted, hconsumed]
    exact ⟨by omega, rfl⟩

/-- The output frame is filled up with one input frame, which is not consumed. -/
theorem refill_run (hheap : buffer_bytes < 2 ^ 16) (hdvd : k ∣ buffer_bytes) (hsize : k / 4 = aacOutputFrameSamples)
    (n : Nat) {evs : List (Event AacInInfo AacAnswer)} (hrun : Run (aacStep buffer_bytes) (attempts k) (Start 0) s evs)
    (h : Filling buffer_bytes k c s) (hcall : s.call = some c) (hrefill : c.need_refill = true)
    (hin : s.in_frames = info :: rest) (hroom : c.dataLen + (n + 1) * k = c.dec_len) :
    ∃ s' evs', Run (aacStep buffer_bytes) (attempts k) (Start 0) s' evs' ∧
      s'.account.bytes = (s.completed.map List.length).sum + buffer_bytes ∧ s'.account.consumed = s.consumed := by
  obtain ⟨pcm, hlen⟩ : ∃ pcm : List UInt8, pcm.length = k := ⟨.replicate k 0, List.length_replicate⟩
  have hattempt : ∀ s, attempts k (.turn (.decoded pcm)) s := fun _ => .inl ⟨pcm, rfl, hlen⟩
  have hpos : 0 < k := by
    unfold aacOutputFrameSamples at hsize
    omega
  induction n generalizing s c evs info with
  | zero =>
    obtain ⟨s', hstep, hbytes⟩ := refill_ends hheap hdvd hsize h hcall hrefill hin hlen (by omega) (by omega)
    exact ⟨s', _, hrun.snoc (hattempt s) hstep, hbytes⟩
  | succ n ih =>
    have hmore : c.dataLen + k + (n + 1) * k = c.dec_len := by
      rw [← hroom, Nat.add_mul (n + 1), Nat.one_mul]
      omega
    have hlt : c.dataLen + k < c.dec_len := by
      have hrest : 0 < (n + 1) * k := Nat.mul_pos (Nat.succ_pos n) hpos
      omega
    obtain ⟨s₁, hstep, hfilling, hcall₁, hin₁, hcompleted, hconsumed⟩ :=
      refill_goes_on hdvd hsize h hcall hrefill hin hlen hlt
    rw [← hcompleted, ← hconsumed]
    exact ih (hrun.snoc (hattempt s) hstep) hfilling hcall₁ hrefill hin₁ hmore

end Refill

/-! ## Runs -/

/-- A call with an empty output frame, and two input frames. -/
theorem two_frames (buffer_bytes k : Nat) (hlarge : decodeAacPcmFrameLength ≤ buffer_bytes) :
    ∃ (s : Cp AacInInfo) (evs : List (Event AacInInfo AacAnswer)),
      Run (aacStep buffer_bytes) (fun e s => attempts k e s ∧ RefusedLast k e s) (Start 0) s evs ∧
      s.call = some ⟨buffer_bytes, 0, false⟩ ∧ s.in_frames = [⟨0, 0⟩, ⟨1, 0⟩] ∧ s.completed = [] ∧ s.consumed = [] ∧
      s.lastFailed = false := by
  have hpos : 0 < buffer_bytes := Nat.lt_of_lt_of_le (by decide) hlarge
  let s₂ : Cp AacInInfo := { blank ⟨0, 0⟩ with in_frames := [⟨0, 0⟩, ⟨1, 0⟩] }
  have hput : Run (aacStep buffer_bytes) (fun e s => attempts k e s ∧ RefusedLast k e s) (Start 0) s₂
      ([] ++ [.put ⟨0, 0⟩] ++ [.put ⟨1, 0⟩]) :=
    .snoc (.snoc (.nil (start_blank ⟨0, 0⟩)) ⟨trivial, trivial⟩ rfl) ⟨trivial, trivial⟩ rfl
  let s₃ : Cp AacInInfo := { s₂.setOut { s₂.out with state := .working, pcm_len := 0, decoded_frames := 0 } with
    cp_codec_reset := false, aacDec_handle := true, call := some ⟨buffer_bytes, 0, false⟩ }
  have henter : aacStep buffer_bytes .enter s₂ = some s₃ := by
    change (if 0 < buffer_bytes then (if buffer_bytes - 0 < decodeAacPcmFrameLength then _ else _) else _) = _
    rw [if_pos hpos, Nat.sub_zero, if_neg (Nat.not_lt.2 hlarge)]
    rfl
  have hrun : Run (aacStep buffer_bytes) (fun e s => attempts k e s ∧ RefusedLast k e s) (Start 0) s₃
      ([] ++ [.put ⟨0, 0⟩] ++ [.put ⟨1, 0⟩] ++ [.enter]) := hput.snoc ⟨trivial, trivial⟩ henter
  exact ⟨s₃, _, hrun, rfl, rfl, rfl, rfl, rfl⟩

/-- For all sequences of input frames: in each run of attempts of which no two in
succession are refused, the time is kept if a refused frame is always the last of its
output frame and the input does not run out in the middle of a call's work. -/
theorem conceals_in_time {buffer_bytes k delay : Nat} (hdvd : k ∣ buffer_bytes)
    (hheap : CpOut.outFrameCnt * buffer_bytes ≤ cpHeapSize) {s : Cp AacInInfo} {evs : List (Event AacInInfo AacAnswer)}
    (h : Run (aacStep buffer_bytes) (fun e s => attempts k e s ∧ RefusedLast k e s) (Start delay) s evs) :
    KeepsTime k s.account := by
  have hheap : buffer_bytes < 2 ^ 16 := by
    unfold cpHeapSize CpOut.outFrameCnt at hheap
    omega
  exact (run_inTime hdvd hheap h).2.keepsTime

/-- The only frame of an output frame is refused, and the next one takes its place. -/
theorem conceals_in_time_one : ∃ s : Cp AacInInfo, KeepsTime 4096 s.account ∧ s.account.bytes = 4096 ∧
    s.account.consumed = [[]] := by
  obtain ⟨s, evs, hrun, hcall, hin, hcompleted, hconsumed, hlast⟩ := two_frames 4096 4096 (by decide)
  have hheap : (4096 : Nat) < 2 ^ 16 := by decide
  have hdvd : 4096 ∣ 4096 := ⟨1, rfl⟩
  have hsize : 4096 / 4 = aacOutputFrameSamples := rfl
  have hfilling := ((run_inTime hdvd hheap hrun).1.filling hcall).1
  have hfilling' : Filling 4096 4096 ⟨4096, 0, true⟩ s := ⟨hfilling.working, hfilling.room, hfilling.level⟩
  have hrefuse : attempts 4096 (.turn .decodeFailed) s ∧ RefusedLast 4096 (.turn .decodeFailed) s := by
    refine ⟨.inr ⟨rfl, hlast⟩, fun c hc => ⟨fun hnil => ?_, fun _ _ => ?_⟩⟩
    · rw [hin] at hnil
      cases hnil
    · rw [hcall] at hc
      cases hc
      rfl
  let s₁ : Cp AacInInfo := { consumeInFrame [] s with call := some ⟨4096, 0, true⟩, lastFailed := true }
  have hrefused := hrun.snoc hrefuse (aacTurn_failed hcall hin rfl)
  have hfilling₁ : Filling 4096 4096 ⟨4096, 0, true⟩ s₁ := hfilling'.congr rfl rfl
  have hin₁ : s₁.in_frames = [⟨1, 0⟩] := congrArg List.tail hin
  obtain ⟨pcm, hlen⟩ : ∃ pcm : List UInt8, pcm.length = 4096 := ⟨.replicate 4096 0, List.length_replicate⟩
  have hconceal : attempts 4096 (.turn (.decoded pcm)) s₁ ∧ RefusedLast 4096 (.turn (.decoded pcm)) s₁ := by
    refine ⟨.inl ⟨pcm, rfl, hlen⟩, fun c _ => ⟨fun hnil => ?_, fun _ h => AacAnswer.noConfusion h⟩⟩
    rw [hin₁] at hnil
    cases hnil
  obtain ⟨s', hstep, hbytes, hconsumed'⟩ := refill_ends hheap hdvd hsize hfilling₁ rfl rfl hin₁ hlen (by decide) rfl
  refine ⟨s', conceals_in_time hdvd (by decide) (hrefused.snoc hconceal hstep), ?_, ?_⟩
  · rw [hbytes]
    change (s.completed.map List.length).sum + 4096 = 4096
    rw [hcompleted]
    rfl
  · rw [hconsumed']
    change s.consumed ++ [[]] = [[]]
    rw [hconsumed]
    rfl

/-- Of an output frame for four PCM frames the first is refused: the next input
frame is decoded four times, and only the refused one is consumed. -/
theorem refused_first : ∃ (s : Cp AacInInfo) (evs : List (Event AacInInfo AacAnswer)),
    Run (aacStep 16384) (attempts 4096) (Start 0) s evs ∧ ¬ KeepsTime 4096 s.account ∧
    s.account.bytes = 4 * 4096 ∧ s.account.consumed.length = 1 := by
  have hheap : (16384 : Nat) < 2 ^ 16 := by decide
  have hdvd : 4096 ∣ 16384 := ⟨4, rfl⟩
  have hsize : 4096 / 4 = aacOutputFrameSamples := rfl
  obtain ⟨s, evs, hrun, hcall, hin, hcompleted, hconsumed, hlast⟩ := two_frames 16384 4096 (by decide)
  have hfilling := ((run_inTime hdvd hheap hrun).1.filling hcall).1
  have hattempt : attempts 4096 (.turn .decodeFailed) s := .inr ⟨rfl, hlast⟩
  have hrefused := (hrun.mono fun _ _ h => h.1).snoc hattempt (aacTurn_failed hcall hin rfl)
  have hfilling' : Filling 16384 4096 ⟨16384, 0, true⟩ s := ⟨hfilling.working, hfilling.room, hfilling.level⟩
  obtain ⟨s', evs', hrun', hbytes, hconsumed'⟩ := refill_run hheap hdvd hsize 3 hrefused (hfilling'.congr rfl rfl) rfl rfl
    (congrArg List.tail hin) rfl
  change _ = (s.completed.map List.length).sum + 16384 at hbytes
  change _ = s.consumed ++ [[]] at hconsumed'
  rw [hcompleted] at hbytes
  rw [hconsumed] at hconsumed'
  refine ⟨s', evs', hrun', ?_, hbytes, by rw [hconsumed']; rfl⟩
  rintro (htime | ⟨-, htime⟩)
  · rw [hbytes, hconsumed'] at htime
    cases htime
  · rw [hbytes, hconsumed'] at htime
    cases htime

end A2dp.CpDecode
