import LittleBuddy.A2dp.CpDecode
/-!
# A decode call goes on where the last one has stopped

Both decoders of the coprocessor may run out of input in the middle of an output
frame. The SBC decoder then records what it has decoded, and no PCM is lost or
repeated. The AAC decoder does not, so that this call's PCM is overwritten by the
next one. As long as this does not happen, both do the same to the output frames.
-/
open Bytes Runs NorMem
open A2dp.CpOut (DecState idleCnt)

namespace A2dp.CpDecode

variable {I : Type}

/-! ## What a resumed call should do -/

/-- The completed output frames are full, and with the one that is being filled
they have the PCM of the consumed input frames, in order and each once. -/
def Exact (buffer_bytes : Nat) (s : Cp I) : Prop :=
  (∀ pcm ∈ s.completed, pcm.length = buffer_bytes) ∧
    s.completed.flatten ++ read s.out.pcm 0 s.filled = s.consumed.flatten

/-- Every input frame decodes to `k` bytes. -/
def sbcDecodes (k : Nat) : Event I SbcAnswer → Cp I → Prop
  | .turn a, _ => (a.status = .success ∨ a.status = .goesOn) ∧ a.pcm.length = k
  | _, _ => True

instance (k : Nat) : ∀ (e : Event I SbcAnswer) (s : Cp I), Decidable (sbcDecodes k e s)
  | .turn a, _ => inferInstanceAs (Decidable ((a.status = .success ∨ a.status = .goesOn) ∧ a.pcm.length = k))
  | .put _, _ | .free _, _ | .codecReset, _ | .enter, _ => .isTrue trivial

def aacDecodes (k : Nat) : Event AacInInfo AacAnswer → Cp AacInInfo → Prop
  | .turn a, _ => ∃ pcm, a = .decoded pcm ∧ pcm.length = k
  | _, _ => True

/-- A call that has decoded a frame finds the next one. -/
def Supplied {A : Type} : Event I A → Cp I → Prop
  | .turn _, s => ∀ c, s.call = some c → s.in_frames = [] → c.dataLen = 0
  | _, _ => True

/-! ### The level of the output frames -/

/-- A decoder without its data: the state and the recorded `pcm_len` of each slot,
0 for a slot without a frame, and `dataLen` of the call under way. -/
structure Level where
  queued : Nat
  slots : Nat → DecState × Nat
  cp_out_widx : Nat
  call : Option Nat

def Level.slot (l : Level) : DecState × Nat := l.slots l.cp_out_widx

def Level.setSlot (l : Level) (v : DecState × Nat) : Level := { l with slots := Function.update l.slots l.cp_out_widx v }

def startLevel (delay : Nat) : Level := ⟨0, fun i => (if i < idleCnt delay then .idle else .initDone, 0), 0, none⟩

/-- What a resumable decoder does with its level, when each input frame decodes to `k` bytes. -/
def levelStep (buffer_bytes k : Nat) : Event Unit Unit → Level → Option Level
  | .put _, l => some { l with queued := l.queued + 1 }
  | .free i, l =>
    if (l.slots i).1 = .done ∨ (l.slots i).1 = .initDone then
      some { l with slots := Function.update l.slots i (.idle, 0) }
    else none
  | .codecReset, l => some l
  | .enter, l =>
    if l.call.isNone then
      match l.slot.1 with
      | .idle => some { l.setSlot (.working, 0) with call := some 0 }
      | .working => some { l with call := some 0 }
      | .done | .initDone => some l
    else none
  | .turn _, l =>
    match l.call, l.queued with
    | none, _ => none
    | some dataLen, 0 => some { l.setSlot (.working, l.slot.2 + dataLen) with call := none }
    | some dataLen, queued + 1 =>
      if l.slot.2 + (dataLen + k) < buffer_bytes then some { l with queued := queued, call := some (dataLen + k) }
      else
        some { l.setSlot (.done, l.slot.2 + (dataLen + k)) with
          queued := queued
          call := none
          cp_out_widx := CpOut.nextIdx l.cp_out_widx }

def OutFrame.level (f : OutFrame I) : DecState × Nat :=
  (f.state, if f.state = .working ∨ f.state = .done then f.pcm_len else 0)

def Cp.level (s : Cp I) : Level :=
  { queued := s.in_frames.length
    slots := OutFrame.level ∘ s.out_frames
    cp_out_widx := s.cp_out_widx
    call := s.call.map Call.dataLen }

/-- An event without the data that it carries. -/
def Event.pattern {A : Type} : Event I A → Event Unit Unit
  | .put _ => .put ()
  | .free i => .free i
  | .codecReset => .codecReset
  | .enter => .enter
  | .turn _ => .turn ()

/-! ## The invariant -/

/-- What is written behind the first bytes is read behind them. -/
theorem read_memcpy_behind (m : Nat → UInt8) (n : Nat) (l : List UInt8) :
    read (memcpy m n (bufferOf l) l.length) 0 (n + l.length) = read m 0 n ++ l := by
  rw [read_add, Nat.zero_add]
  congr 1
  · apply read_congr
    intro a _ ha
    exact memcpy_other fun h => absurd h.1 (by omega)
  · have hself := read_bufferOf_self l
    conv => rhs; rw [← hself]
    apply List.map_congr_left
    intro j hj
    have hj := List.mem_range.1 hj
    rw [memcpy_of ⟨by omega, by omega⟩]
    congr 1
    omega

/-- The account of a decoder that loses nothing. -/
structure Whole (buffer_bytes : Nat) (a : Account) : Prop where
  need_refill : a.need_refill = false
  full : ∀ pcm ∈ a.completed, pcm.length = buffer_bytes
  pcm : a.completed.flatten ++ read a.pcm 0 a.filled = a.consumed.flatten

def Inv (buffer_bytes k : Nat) (s : Cp I) : Prop := Shape buffer_bytes k s ∧ Whole buffer_bytes s.account

theorem Whole.complete {buffer_bytes : Nat} {a : Account} (h : Whole buffer_bytes a) (hfull : a.filled = buffer_bytes)
    (pcm : Nat → UInt8) : Whole buffer_bytes (a.complete pcm) := by
  refine ⟨rfl, ?_, ?_⟩
  · intro pcm hmem
    rcases List.mem_append.1 hmem with hmem | hmem
    · exact h.full pcm hmem
    · rw [List.mem_singleton.1 hmem, length_read, hfull]
  · change (a.completed ++ [read a.pcm 0 a.filled]).flatten ++ [] = a.consumed.flatten
    rw [List.append_nil, List.flatten_append, List.flatten_singleton]
    exact h.pcm

section Inv

variable {buffer_bytes k : Nat} {s s' : Cp I} {c : Call}

theorem Inv.exact (h : Inv buffer_bytes k s) : Exact buffer_bytes s := ⟨h.2.full, h.2.pcm⟩

theorem inv_start {delay : Nat} (h : Start delay s) : Inv buffer_bytes k s := by
  obtain ⟨hshape, haccount⟩ := h.account
  refine ⟨hshape, ?_⟩
  rw [haccount]
  exact ⟨rfl, fun pcm hpcm => absurd hpcm List.not_mem_nil, rfl⟩

/-- The call under way, and its account. -/
theorem Inv.call (h : Inv buffer_bytes k s) (hcall : s.call = some c) :
    Filling buffer_bytes k c s ∧ c.dataLen < c.dec_len ∧ Whole buffer_bytes (s.accountIn c) := by
  obtain ⟨hshape, hwhole⟩ := h
  rw [account_call hcall] at hwhole
  exact ⟨(hshape.filling hcall).1, (hshape.filling hcall).2, hwhole⟩

/-- The input has run out, and what has been decoded is recorded. -/
theorem Inv.underflow (h : Inv buffer_bytes k s) (hcall : s.call = some c)
    (hs' : s' = { s.setOut { s.out with pcm_len := s.out.pcm_len + c.dataLen } with call := none, ret := 4 }) :
    Inv buffer_bytes k s' := by
  obtain ⟨hfilling, hlt, hwhole⟩ := h.call hcall
  obtain ⟨hshape, haccount⟩ := hfilling.underflow hlt hs'
  refine ⟨hshape, ?_⟩
  rw [haccount]
  exact ⟨rfl, hwhole.full, hwhole.pcm⟩

theorem Inv.decoded (h : Inv buffer_bytes k s) (hcall : s.call = some c) (hdvd : k ∣ buffer_bytes)
    (hheap : buffer_bytes < 2 ^ 16) {pcm : List UInt8} (hlen : pcm.length = k) {info : I} {frame_samples : Nat}
    (lastFailed : Bool)
    (hgo : goOn buffer_bytes false { c with dataLen := c.dataLen + pcm.length }
      { consumeInFrame pcm (noteFrame info frame_samples (writePcm pcm c s)) with lastFailed := lastFailed } = some s') :
    Inv buffer_bytes k s' := by
  obtain ⟨hfilling, hlt, hwhole⟩ := h.call hcall
  have hnoted := hfilling.noted hlt hdvd hlen info frame_samples
  have haccount := noted_account s info frame_samples pcm c
  generalize hs₁ : ({ consumeInFrame pcm (noteFrame info frame_samples (writePcm pcm c s)) with
    lastFailed := lastFailed } : Cp I) = s₁ at hgo
  have hfilling₁ : Filling buffer_bytes k { c with dataLen := c.dataLen + pcm.length } s₁ := by
    rw [← hs₁]
    exact hnoted.congr rfl rfl
  have hwhole₁ : Whole buffer_bytes (s₁.accountIn { c with dataLen := c.dataLen + pcm.length }) := by
    have hsame : s₁.accountIn { c with dataLen := c.dataLen + pcm.length } =
        { (noteFrame info frame_samples (writePcm pcm c s)).accountIn { c with dataLen := c.dataLen + pcm.length } with
          consumed := s.consumed ++ [pcm], lastFailed := lastFailed } := by
      rw [← hs₁]
      rfl
    rw [hsame, haccount]
    refine ⟨hwhole.need_refill, hwhole.full, ?_⟩
    change s.completed.flatten ++ read (memcpy s.out.pcm (s.accountIn c).filled (bufferOf pcm) pcm.length) 0
      ((s.accountIn c).filled + pcm.length) = (s.consumed ++ [pcm]).flatten
    rw [read_memcpy_behind, ← List.append_assoc, List.flatten_append, List.flatten_singleton]
    exact congrArg (· ++ pcm) hwhole.pcm
  obtain ⟨hshape, ⟨-, haccount'⟩ | ⟨hfull, haccount'⟩⟩ := hfilling₁.goOn hheap hgo
  · exact ⟨hshape, by rw [haccount']; exact hwhole₁⟩
  · exact ⟨hshape, by rw [haccount']; exact hwhole₁.complete hfull _⟩

theorem sbcTurn_inv (hdvd : k ∣ buffer_bytes) (hheap : buffer_bytes < 2 ^ 16) {a : SbcAnswer}
    (h : Inv buffer_bytes k s) (hcond : sbcDecodes k (.turn a : Event I SbcAnswer) s)
    (hstep : sbcTurn buffer_bytes a s = some s') : Inv buffer_bytes k s' := by
  unfold sbcTurn at hstep
  split at hstep
  · cases hstep
  · rename_i c hcall _
    cases hstep
    exact h.underflow hcall (by rw [(h.call hcall).1.addPcmLen hheap])
  · rename_i c info rest hcall _
    obtain ⟨hstatus, hlen⟩ := hcond
    rcases hstatus with hstatus | hstatus
    · rw [hstatus] at hstep
      exact h.decoded hcall hdvd hheap hlen s.lastFailed hstep
    · rw [hstatus] at hstep
      exact h.decoded hcall hdvd hheap hlen s.lastFailed hstep

theorem sbc_inv (hdvd : k ∣ buffer_bytes) (hheap : buffer_bytes < 2 ^ 16) (e : Event I SbcAnswer) (s s' : Cp I)
    (h : Inv buffer_bytes k s) (hcond : sbcDecodes k e s) (hstep : sbcStep buffer_bytes e s = some s') :
    Inv buffer_bytes k s' :=
  step_account (Whole buffer_bytes) (sbcDecodes k) (fun _ _ => sbcEnter_entered) (fun _ _ _ => sbcTurn_inv hdvd hheap)
    e s s' h hcond hstep

end Inv

section Aac

variable {buffer_bytes k : Nat} {s s' : Cp AacInInfo} {c : Call}

theorem aacTurn_inv (hdvd : k ∣ buffer_bytes) (hheap : buffer_bytes < 2 ^ 16) {a : AacAnswer}
    (h : Inv buffer_bytes k s) (hcond : aacDecodes k (.turn a) s ∧ Supplied (.turn a : Event AacInInfo AacAnswer) s)
    (hstep : aacTurn buffer_bytes a s = some s') : Inv buffer_bytes k s' := by
  obtain ⟨⟨pcm, rfl, hlen⟩, hsupplied⟩ := hcond
  cases hcall : s.call with
  | none =>
    rw [aacTurn, hcall] at hstep
    cases hstep
  | some c =>
    cases hin : s.in_frames with
    | nil =>
      rw [aacTurn_underflow hcall hin] at hstep
      cases hstep
      exact h.underflow hcall (by rw [setOut_self (hsupplied c hcall hin)])
    | cons info rest =>
      rw [aacTurn_decoded pcm hcall hin (h.call hcall).2.2.need_refill] at hstep
      split at hstep
      · exact h.decoded hcall hdvd hheap hlen false hstep
      · cases hstep

theorem aac_inv (hdvd : k ∣ buffer_bytes) (hheap : buffer_bytes < 2 ^ 16) (e : Event AacInInfo AacAnswer)
    (s s' : Cp AacInInfo) (h : Inv buffer_bytes k s) (hcond : aacDecodes k e s ∧ Supplied e s)
    (hstep : aacStep buffer_bytes e s = some s') : Inv buffer_bytes k s' :=
  step_account (Whole buffer_bytes) (fun e s => aacDecodes k e s ∧ Supplied e s) (fun _ _ => aacEnter_entered)
    (fun _ _ _ => aacTurn_inv hdvd hheap) e s s' h hcond hstep

end Aac

/-! ## One discipline for both -/

section Level

variable {buffer_bytes k : Nat} {s s' : Cp I} {c : Call}

theorem setOut_level (s : Cp I) (f : OutFrame I) : (s.setOut f).level = s.level.setSlot f.level := by
  simp only [Cp.level, Cp.setOut, Level.setSlot, Function.comp_update]

theorem setSlot_self (s : Cp I) : s.level.setSlot s.out.level = s.level := by
  simp only [Level.setSlot, Cp.level, Cp.out, Level.mk.injEq, true_and, and_true]
  exact Function.update_eq_self s.cp_out_widx (OutFrame.level ∘ s.out_frames)

/-- Only the level of the frame counts. -/
theorem setOut_level_same (s : Cp I) (f : OutFrame I) (h : f.level = s.out.level) : (s.setOut f).level = s.level := by
  rw [setOut_level, h, setSlot_self]

theorem level_slot (s : Cp I) : s.level.slot = s.out.level := rfl

theorem Filling.slot (h : Filling buffer_bytes k c s) : s.out.level = (.working, s.out.pcm_len) := by
  rw [OutFrame.level, h.out, if_pos (.inl rfl)]

theorem decoded_level (info : I) (frame_samples : Nat) (pcm : List UInt8) (c : Call) :
    (consumeInFrame pcm (noteFrame info frame_samples (writePcm pcm c s))).level =
      { s.level with queued := s.in_frames.tail.length } := by
  have hwritten : (writePcm pcm c s).level = s.level := setOut_level_same s _ rfl
  have hnoted : (noteFrame info frame_samples (writePcm pcm c s)).level = s.level := by
    rw [← hwritten, noteFrame]
    exact setOut_level_same _ _ rfl
  rw [← hnoted]
  rfl

theorem consumeEmtpyOutFrame_level (hstate : s.out.state = .working) (hstep : consumeEmtpyOutFrame s = some s') :
    s'.level = { s.level.setSlot (.done, s.out.pcm_len) with cp_out_widx := CpOut.nextIdx s.cp_out_widx } := by
  rw [consumeEmtpyOutFrame, if_pos hstate, Option.some.injEq] at hstep
  have hlevel := setOut_level s { s.out with state := .done }
  rw [show OutFrame.level { s.out with state := .done } = (.done, s.out.pcm_len) by
    rw [OutFrame.level, if_pos (.inr rfl)]] at hlevel
  rw [← hlevel, ← hstep]
  rfl

theorem Filling.goOn_level (h : Filling buffer_bytes k c s) (hheap : buffer_bytes < 2 ^ 16)
    (hstep : CpDecode.goOn buffer_bytes false c s = some s') :
    s'.level =
      if s.out.pcm_len + c.dataLen < buffer_bytes then { s.level with call := some c.dataLen }
      else
        { s.level.setSlot (.done, s.out.pcm_len + c.dataLen) with
          call := none
          cp_out_widx := CpOut.nextIdx s.cp_out_widx } := by
  have hroom := h.room
  rw [CpDecode.goOn] at hstep
  by_cases hlt : c.dataLen < c.dec_len
  · rw [if_pos ⟨hlt, rfl⟩, Option.some.injEq] at hstep
    rw [if_pos (by omega), ← hstep]
    rfl
  · rw [if_neg (fun h => hlt h.1), h.addPcmLen hheap] at hstep
    rw [if_neg (by omega)]
    dsimp only at hstep
    generalize hfilled : ({ s.setOut { s.out with pcm_len := s.out.pcm_len + c.dataLen } with
      call := none, ret := if false then 1 else 0 } : Cp I) = filled at hstep
    have hout : filled.out = { s.out with pcm_len := s.out.pcm_len + c.dataLen } := by
      rw [← hfilled]
      exact setOut_out s { s.out with pcm_len := s.out.pcm_len + c.dataLen }
    have hlevel : filled.level =
        { s.level.setSlot (OutFrame.level { s.out with pcm_len := s.out.pcm_len + c.dataLen }) with call := none } := by
      rw [← setOut_level, ← hfilled]
      rfl
    rw [if_pos (.inr (by rw [hout]; dsimp only; omega))] at hstep
    rw [consumeEmtpyOutFrame_level (by rw [hout]; exact h.out) hstep, hlevel, hout, ← hfilled]
    simp only [Level.setSlot, Function.update_idem]
    rfl

theorem Filling.turn_level (h : Filling buffer_bytes k c s) (hlt : c.dataLen < c.dec_len) (hdvd : k ∣ buffer_bytes)
    (hheap : buffer_bytes < 2 ^ 16) (hcall : s.call = some c) {info : I} {rest : List I} (hin : s.in_frames = info :: rest)
    {pcm : List UInt8} (hlen : pcm.length = k) {frame_samples : Nat} (lastFailed : Bool)
    (hgo : CpDecode.goOn buffer_bytes false { c with dataLen := c.dataLen + pcm.length }
      { consumeInFrame pcm (noteFrame info frame_samples (writePcm pcm c s)) with lastFailed := lastFailed } = some s') :
    levelStep buffer_bytes k (.turn ()) s.level = some s'.level := by
  have hdecoded : Filling buffer_bytes k { c with dataLen := c.dataLen + pcm.length }
      { consumeInFrame pcm (noteFrame info frame_samples (writePcm pcm c s)) with lastFailed := lastFailed } :=
    (h.noted hlt hdvd hlen info frame_samples).congr rfl rfl
  have hlevel := decoded_level (s := s) info frame_samples pcm c
  generalize hnoted : ({ consumeInFrame pcm (noteFrame info frame_samples (writePcm pcm c s)) with
    lastFailed := lastFailed } : Cp I) = noted at hgo hdecoded
  have hnoted_level : noted.level = { s.level with queued := rest.length } := by
    rw [hin, List.tail_cons] at hlevel
    rw [← hlevel, ← hnoted]
    rfl
  have hpcm_len : noted.out.pcm_len = s.out.pcm_len := by
    have hsame := congrArg OutFrame.pcm_len (noted_out s info frame_samples pcm c)
    rw [← hnoted]
    exact hsame
  have hwidx : noted.cp_out_widx = s.cp_out_widx := by rw [← hnoted]; rfl
  have hlevel' := hdecoded.goOn_level hheap hgo
  dsimp only at hlevel'
  rw [hpcm_len, hnoted_level, hwidx, hlen] at hlevel'
  have hcall : s.level.call = some c.dataLen := by rw [Cp.level, hcall]; rfl
  have hqueued : s.level.queued = rest.length + 1 := by rw [Cp.level, hin]; rfl
  simp only [levelStep, hcall, hqueued, level_slot, h.slot]
  rw [hlevel']
  split
  · rfl
  · rfl

theorem Filling.underflow_level (h : Filling buffer_bytes k c s) (hcall : s.call = some c) (hin : s.in_frames = [])
    (ret : Int) :
    levelStep buffer_bytes k (.turn ()) s.level =
      some ({ s.setOut { s.out with pcm_len := s.out.pcm_len + c.dataLen } with call := none, ret := ret } : Cp I).level := by
  have hlevel := setOut_level s { s.out with pcm_len := s.out.pcm_len + c.dataLen }
  have hcall : s.level.call = some c.dataLen := by rw [Cp.level, hcall]; rfl
  have hqueued : s.level.queued = 0 := by rw [Cp.level, hin]; rfl
  have hslot : OutFrame.level { s.out with pcm_len := s.out.pcm_len + c.dataLen } =
      (.working, s.out.pcm_len + c.dataLen) := by
    rw [OutFrame.level, h.out, if_pos (.inl rfl)]
  rw [hslot] at hlevel
  simp only [levelStep, hcall, hqueued, level_slot, h.slot]
  rw [← hlevel]
  rfl

variable (buffer_bytes k) in
theorem enter_level_none (hget : getEmtpyOutFrame s = none) (hcall : s.call = none) :
    levelStep buffer_bytes k .enter s.level = some s.level := by
  have hcall : s.level.call = none := by rw [Cp.level, hcall]; rfl
  have hslot : s.level.slot.1 = s.out.state := rfl
  unfold getEmtpyOutFrame at hget
  split at hget
  · cases hget
  · cases hget
  · rename_i hstate
    simp only [levelStep, hcall, hslot, hstate, Option.isNone_none, if_true]
  · rename_i hstate
    simp only [levelStep, hcall, hslot, hstate, Option.isNone_none, if_true]

variable (buffer_bytes k) in
theorem enter_level_some (hget : getEmtpyOutFrame s = some s') (hcall : s.call = none) :
    levelStep buffer_bytes k .enter s.level = some { s'.level with call := some 0 } := by
  have hcall : s.level.call = none := by rw [Cp.level, hcall]; rfl
  have hslot : s.level.slot.1 = s.out.state := rfl
  unfold getEmtpyOutFrame at hget
  split at hget
  · rename_i hstate
    simp only [levelStep, hcall, hslot, hstate, Option.isNone_none, if_true]
    cases hget
    rw [setOut_level]
    rfl
  · rename_i hstate
    simp only [levelStep, hcall, hslot, hstate, Option.isNone_none, if_true]
    cases hget
    rfl
  · cases hget
  · cases hget

/-- What the calls of a decoder do with its level, and the MCU. -/
theorem step_level {A : Type} {enter : Cp I → Option (Cp I)} {turn : A → Cp I → Option (Cp I)}
    {P : Cp I → Prop} (cond : Event I A → Cp I → Prop)
    (henter : ∀ s s', P s → s.call = none → enter s = some s' → levelStep buffer_bytes k .enter s.level = some s'.level)
    (hturn : ∀ a s s', P s → cond (.turn a) s → turn a s = some s' →
      levelStep buffer_bytes k (.turn ()) s.level = some s'.level)
    (e : Event I A) (s s' : Cp I) (h : P s) (hcond : cond e s) (hstep : step enter turn e s = some s') :
    levelStep buffer_bytes k e.pattern s.level = some s'.level := by
  cases e with
  | put info =>
    cases hstep
    simp only [Event.pattern, levelStep, Cp.level, List.length_append, List.length_singleton]
  | free i =>
    rw [step] at hstep
    split at hstep
    · rename_i hi
      cases hstep
      have hi' : (s.level.slots i).1 = .done ∨ (s.level.slots i).1 = .initDone := hi
      rw [Event.pattern, levelStep, if_pos hi']
      simp only [Cp.level, freeOutFrame, Function.comp_update]
      rfl
    · cases hstep
  | codecReset =>
    cases hstep
    rfl
  | enter =>
    rw [step] at hstep
    split at hstep
    · exact henter s s' h (Option.isNone_iff_eq_none.1 ‹_›) hstep
    · cases hstep
  | turn a => exact hturn a s s' h hcond hstep

theorem start_level {delay : Nat} (h : Start delay s) : s.level = startLevel delay := by
  obtain ⟨hin, hwidx, -, hcall, -, -, -, hstate⟩ := h
  have hslots : OutFrame.level ∘ s.out_frames = fun i => (if i < idleCnt delay then .idle else .initDone, 0) := by
    funext i
    rw [Function.comp_apply, OutFrame.level, hstate]
    split <;> rfl
  rw [Cp.level, hin, hwidx, hcall, hslots]
  rfl

theorem sbcEnter_level (hcall : s.call = none) (hstep : sbcEnter buffer_bytes s = some s') :
    levelStep buffer_bytes k .enter s.level = some s'.level := by
  unfold sbcEnter at hstep
  split at hstep
  · rename_i hget
    cases hstep
    have hlevel := enter_level_none buffer_bytes k hget hcall
    exact hlevel
  · rename_i s₁ hget
    split at hstep
    · cases hstep
      have hlevel := enter_level_some buffer_bytes k hget hcall
      exact hlevel
    · cases hstep

theorem sbcTurn_level (hdvd : k ∣ buffer_bytes) (hheap : buffer_bytes < 2 ^ 16) {a : SbcAnswer}
    (h : Inv buffer_bytes k s) (hcond : sbcDecodes k (.turn a : Event I SbcAnswer) s)
    (hstep : sbcTurn buffer_bytes a s = some s') : levelStep buffer_bytes k (.turn ()) s.level = some s'.level := by
  unfold sbcTurn at hstep
  split at hstep
  · cases hstep
  · rename_i c hcall hin
    obtain ⟨hfilling, -, -⟩ := h.call hcall
    cases hstep
    rw [hfilling.addPcmLen hheap]
    exact hfilling.underflow_level hcall hin 4
  · rename_i c info rest hcall hin
    obtain ⟨hfilling, hlt, -⟩ := h.call hcall
    obtain ⟨hstatus, hlen⟩ := hcond
    rcases hstatus with hstatus | hstatus
    · rw [hstatus] at hstep
      exact hfilling.turn_level hlt hdvd hheap hcall hin hlen s.lastFailed hstep
    · rw [hstatus] at hstep
      exact hfilling.turn_level hlt hdvd hheap hcall hin hlen s.lastFailed hstep

end Level

section AacLevel

variable {buffer_bytes k : Nat} {s s' : Cp AacInInfo} {c : Call}

/-- The decoder is set up, or it will be. -/
def Ready (s : Cp I) : Prop := s.cp_codec_reset = true ∨ s.aacDec_handle = true

/-- The handle is there when the output frame is got. -/
theorem Ready.init (h : Ready s) :
    (if s.cp_codec_reset then { s with cp_codec_reset := false, aacDec_handle := true } else s).aacDec_handle = true := by
  split
  · rfl
  · rename_i hreset
    exact h.resolve_left hreset

theorem aacEnter_ready (h : Ready s) (hstep : aacEnter buffer_bytes s = some s') : Ready s' := by
  have hinit := h.init
  unfold aacEnter at hstep
  dsimp only at hstep
  split at hstep
  · cases hstep
    exact .inr hinit
  · rename_i s₁ hget
    have hhandle := (getEmtpyOutFrame_got hget).aacDec_handle.trans hinit
    split at hstep
    case isFalse => cases hstep
    split at hstep
    · cases hstep
      exact .inr hhandle
    split at hstep
    · cases hstep
      exact .inr hhandle
    · cases hstep
      exact .inr hhandle

theorem consumeEmtpyOutFrame_ready {s s' : Cp I} (h : Ready s) (hstep : consumeEmtpyOutFrame s = some s') : Ready s' := by
  unfold consumeEmtpyOutFrame at hstep
  split at hstep
  · cases hstep
    exact h
  · cases hstep

theorem goOn_ready {error : Bool} {s s' : Cp I} (h : Ready s) (hstep : goOn buffer_bytes error c s = some s') :
    Ready s' := by
  unfold goOn at hstep
  split at hstep
  · cases hstep
    exact h
  · dsimp only at hstep
    generalize hs₁ : ({ addPcmLen c s with call := none, ret := if error = true then 1 else 0 } : Cp I) = s₁ at hstep
    have h₁ : Ready s₁ := by
      rw [← hs₁]
      exact h
    split at hstep
    · exact consumeEmtpyOutFrame_ready h₁ hstep
    · cases hstep
      exact h₁

/-- A frame of the only size that AAC has leaves no smaller room in the output frame. -/
theorem aacEnter_level (hdvd : k ∣ buffer_bytes) (hsize : k / 4 = aacOutputFrameSamples) (h : Paused buffer_bytes k s)
    (hready : Ready s) (hcall : s.call = none) (hstep : aacEnter buffer_bytes s = some s') :
    levelStep buffer_bytes k .enter s.level = some s'.level := by
  have hinit := hready.init
  unfold aacEnter at hstep
  dsimp only at hstep
  generalize hs₀ : (if s.cp_codec_reset = true then { s with cp_codec_reset := false, aacDec_handle := true } else s) =
    s₀ at hstep hinit
  have h₀ : Paused buffer_bytes k s₀ ∧ s₀.call = none ∧ s₀.level = s.level := by
    rw [← hs₀]
    split
    · exact ⟨h.congr rfl rfl, hcall, rfl⟩
    · exact ⟨h, hcall, rfl⟩
  obtain ⟨h₀, hcall₀, hlevel⟩ := h₀
  rw [← hlevel]
  split at hstep
  · rename_i hget
    cases hstep
    exact enter_level_none buffer_bytes k hget hcall₀
  · rename_i s₁ hget
    split at hstep
    case isFalse => cases hstep
    rename_i hlen
    have hgot := getEmtpyOutFrame_got hget
    obtain ⟨-, hfilled⟩ := (h₀.got hgot hlen).level hgot.state
    have hroom := Nat.le_of_dvd (Nat.sub_pos_of_lt hlen) (Nat.dvd_sub hdvd hfilled)
    rw [if_neg (by unfold decodeAacPcmFrameLength; unfold aacOutputFrameSamples at hsize; omega),
      (getEmtpyOutFrame_got hget).aacDec_handle.trans hinit] at hstep
    simp only [Bool.not_true, Bool.false_eq_true, if_false, Option.some.injEq] at hstep
    rw [enter_level_some buffer_bytes k hget hcall₀, ← hstep]
    rfl

theorem aacTurn_level (hdvd : k ∣ buffer_bytes) (hheap : buffer_bytes < 2 ^ 16) {a : AacAnswer}
    (h : Inv buffer_bytes k s) (hcond : aacDecodes k (.turn a) s ∧ Supplied (.turn a : Event AacInInfo AacAnswer) s)
    (hstep : aacTurn buffer_bytes a s = some s') : levelStep buffer_bytes k (.turn ()) s.level = some s'.level := by
  obtain ⟨⟨pcm, rfl, hlen⟩, hsupplied⟩ := hcond
  cases hcall : s.call with
  | none =>
    rw [aacTurn, hcall] at hstep
    cases hstep
  | some c =>
    obtain ⟨hfilling, hlt, hwhole⟩ := h.call hcall
    cases hin : s.in_frames with
    | nil =>
      have hlevel := hfilling.underflow_level hcall hin 4
      rw [setOut_self (hsupplied c hcall hin)] at hlevel
      rw [aacTurn_underflow hcall hin] at hstep
      cases hstep
      exact hlevel
    | cons info rest =>
      rw [aacTurn_decoded pcm hcall hin hwhole.need_refill] at hstep
      split at hstep
      · exact hfilling.turn_level hlt hdvd hheap hcall hin hlen false hstep
      · cases hstep

theorem aac_ready (e : Event AacInInfo AacAnswer) (s s' : Cp AacInInfo) (h : Ready s)
    (hcond : aacDecodes k e s) (hneed : ∀ c, s.call = some c → c.need_refill = false)
    (hstep : aacStep buffer_bytes e s = some s') : Ready s' := by
  cases e with
  | put info =>
    cases hstep
    exact h
  | free i =>
    rw [aacStep, step] at hstep
    split at hstep
    · cases hstep
      exact h
    · cases hstep
  | codecReset =>
    cases hstep
    exact .inl rfl
  | enter =>
    rw [aacStep, step] at hstep
    split at hstep
    · exact aacEnter_ready h hstep
    · cases hstep
  | turn a =>
    obtain ⟨pcm, rfl, -⟩ := hcond
    change aacTurn buffer_bytes (.decoded pcm) s = some s' at hstep
    cases hcall : s.call with
    | none =>
      rw [aacTurn, hcall] at hstep
      cases hstep
    | some c =>
      cases hin : s.in_frames with
      | nil =>
        rw [aacTurn_underflow hcall hin] at hstep
        cases hstep
        exact h
      | cons info rest =>
        rw [aacTurn_decoded pcm hcall hin (hneed c hcall)] at hstep
        split at hstep
        · refine goOn_ready ?_ hstep
          exact h
        · cases hstep

end AacLevel

/-! ## Runs -/

section Theorems

variable {buffer_bytes k delay : Nat}

theorem sbc_run_inv (hdvd : k ∣ buffer_bytes) (hheap : buffer_bytes < 2 ^ 16) {s : Cp I} {evs : List (Event I SbcAnswer)}
    (h : Run (sbcStep buffer_bytes) (sbcDecodes k) (Start delay) s evs) : Inv buffer_bytes k s :=
  h.inv _ (fun _ => inv_start) (sbc_inv hdvd hheap)

theorem aac_run_inv (hdvd : k ∣ buffer_bytes) (hheap : buffer_bytes < 2 ^ 16) {s : Cp AacInInfo}
    {evs : List (Event AacInInfo AacAnswer)}
    (h : Run (aacStep buffer_bytes) (fun e s => aacDecodes k e s ∧ Supplied e s) (Start delay) s evs) :
    Inv buffer_bytes k s ∧ Ready s := by
  refine h.inv (fun s => Inv buffer_bytes k s ∧ Ready s) (fun s h => ⟨inv_start h, .inl h.2.2.1⟩) ?_
  intro e s s' ⟨hinv, hready⟩ hcond hstep
  refine ⟨aac_inv hdvd hheap e s s' hinv hcond hstep, aac_ready e s s' hready hcond.1 ?_ hstep⟩
  intro c hcall
  exact (hinv.call hcall).2.2.need_refill

theorem sbc_run_level (hdvd : k ∣ buffer_bytes) (hheap : buffer_bytes < 2 ^ 16) {s : Cp I}
    {evs : List (Event I SbcAnswer)} (h : Run (sbcStep buffer_bytes) (sbcDecodes k) (Start delay) s evs) :
    runAll (levelStep buffer_bytes k) (fun _ _ => true) (evs.map Event.pattern) (startLevel delay) = some s.level := by
  refine h.simulates Cp.level Event.pattern _ (Inv buffer_bytes k) (fun _ _ => sbc_run_inv hdvd hheap)
    (fun _ => start_level) ?_
  exact step_level (sbcDecodes k) (fun _ _ _ => sbcEnter_level) (fun _ _ _ => sbcTurn_level hdvd hheap)

theorem aac_run_level (hdvd : k ∣ buffer_bytes) (hheap : buffer_bytes < 2 ^ 16) (hsize : k / 4 = aacOutputFrameSamples)
    {s : Cp AacInInfo} {evs : List (Event AacInInfo AacAnswer)}
    (h : Run (aacStep buffer_bytes) (fun e s => aacDecodes k e s ∧ Supplied e s) (Start delay) s evs) :
    runAll (levelStep buffer_bytes k) (fun _ _ => true) (evs.map Event.pattern) (startLevel delay) = some s.level := by
  refine h.simulates Cp.level Event.pattern _ (fun s => Inv buffer_bytes k s ∧ Ready s)
    (fun _ _ => aac_run_inv hdvd hheap) (fun _ => start_level) ?_
  refine step_level (fun e s => aacDecodes k e s ∧ Supplied e s) (fun s s' h hcall => ?_)
    (fun a s s' h => aacTurn_level hdvd hheap h.1)
  exact aacEnter_level hdvd hsize (h.1.1.paused hcall) h.2 hcall

/-- What has been decoded in a call of the AAC decoder that runs out of input is lost. -/
theorem aac_exact_iff (hdvd : k ∣ buffer_bytes) (hheap : buffer_bytes < 2 ^ 16) {s s' : Cp AacInInfo}
    {e : Event AacInInfo AacAnswer} (hinv : Inv buffer_bytes k s) (hcond : aacDecodes k e s)
    (hstep : aacStep buffer_bytes e s = some s') : Exact buffer_bytes s' ↔ Supplied e s := by
  constructor
  · intro hexact
    cases e with
    | turn a =>
      intro c hcall hin
      obtain ⟨hfilling, -, hwhole⟩ := hinv.call hcall
      have hs' : s' = { s with call := none, ret := 4 } :=
        (Option.some.inj ((aacTurn_underflow hcall hin).symm.trans hstep)).symm
      have hfilled : s'.filled = s.out.pcm_len := by
        rw [hs']
        exact if_pos hfilling.out
      have hbefore := congrArg List.length hwhole.pcm
      have hafter := congrArg List.length hexact.2
      rw [hfilled, hs'] at hafter
      rw [List.length_append, length_read] at hbefore hafter
      simp only [Cp.accountIn] at hbefore hafter
      omega
    | put | free | codecReset | enter => trivial
  · exact fun hsupplied => (aac_inv hdvd hheap e s s' hinv ⟨hcond, hsupplied⟩ hstep).exact

/-- For all sequences of input frames, at all times: if every frame decodes to `k`
bytes, which divide the output frame, then the SBC decoder puts the PCM of each
consumed frame into the output frames once and in order. So does the AAC decoder
as long as no call runs out of input after it has decoded a frame, and no longer.
After the same pattern both have the same output frames. -/
theorem resumed_decoding (hdvd : k ∣ buffer_bytes) (hheap : CpOut.outFrameCnt * buffer_bytes ≤ cpHeapSize) :
    (∀ (s : Cp I) evs, Run (sbcStep buffer_bytes) (sbcDecodes k) (Start delay) s evs → Exact buffer_bytes s) ∧
    (∀ s evs, Run (aacStep buffer_bytes) (fun e s => aacDecodes k e s ∧ Supplied e s) (Start delay) s evs →
      Exact buffer_bytes s ∧
      ∀ e s', aacDecodes k e s → aacStep buffer_bytes e s = some s' → (Exact buffer_bytes s' ↔ Supplied e s)) ∧
    (k / 4 = aacOutputFrameSamples → ∀ (s : Cp I) t sbcEvs aacEvs,
      Run (sbcStep buffer_bytes) (sbcDecodes k) (Start delay) s sbcEvs →
      Run (aacStep buffer_bytes) (fun e s => aacDecodes k e s ∧ Supplied e s) (Start delay) t aacEvs →
      sbcEvs.map Event.pattern = aacEvs.map Event.pattern → s.level = t.level) := by
  have hheap : buffer_bytes < 2 ^ 16 := by
    unfold cpHeapSize CpOut.outFrameCnt at hheap
    omega
  refine ⟨?_, ?_, ?_⟩
  · intro s evs h
    exact (sbc_run_inv hdvd hheap h).exact
  · intro s evs h
    have hinv := (aac_run_inv hdvd hheap h).1
    exact ⟨hinv.exact, fun e s' => aac_exact_iff hdvd hheap hinv⟩
  · intro hsize s t sbcEvs aacEvs hs ht hpattern
    have hsbc := sbc_run_level hdvd hheap hs
    have haac := aac_run_level hdvd hheap hsize ht
    rw [hpattern] at hsbc
    exact Option.some.inj (hsbc.symm.trans haac)

/-- Two frames of a byte, of which the second comes when the call has run out of input. -/
theorem resumed_decoding_two : ∃ s : Cp Unit, Exact 2 s ∧ s.completed = [[5, 7]] := by
  obtain ⟨s, hrun, hgood⟩ := exists_run_of_check (sbcStep 2) (sbcDecodes 1) (Start 0) (some (blank ()))
    [.put (), .enter, .turn ⟨.success, [5], 4⟩, .turn ⟨.success, [7], 4⟩, .put (), .enter, .turn ⟨.success, [7], 4⟩]
    (fun s => decide (s.completed = [[5, 7]])) (fun s hs => by cases hs; exact start_blank ()) (by decide)
  exact ⟨s, (resumed_decoding (by decide) (by decide)).1 s _ hrun, of_decide_eq_true hgood⟩

/-- The AAC decoder decodes a frame, and then the input runs out in the middle of the output frame. -/
theorem underflow_loses : ∃ (s : Cp AacInInfo) (evs : List (Event AacInInfo AacAnswer)),
    Run (aacStep 8192) (aacDecodes 4096) (Start 0) s evs ∧ ¬ Exact 8192 s := by
  obtain ⟨pcm, hlen⟩ : ∃ pcm : List UInt8, pcm.length = 4096 := ⟨.replicate 4096 0, List.length_replicate⟩
  obtain ⟨s, hs, hcall, hin, hout, hcompleted, hconsumed⟩ : ∃ s : Cp AacInInfo,
      Run (aacStep 8192) (aacDecodes 4096) (Start 0) s ([] ++ [.put ⟨0, 0⟩] ++ [.enter]) ∧
      s.call = some ⟨8192, 0, false⟩ ∧
      s.in_frames = [⟨0, 0⟩] ∧ s.out.pcm_len = 0 ∧ s.completed = [] ∧ s.consumed = [] := by
    refine ⟨_, .snoc (.snoc (.nil (start_blank ⟨0, 0⟩)) trivial rfl) trivial rfl, rfl, rfl, rfl, rfl, rfl⟩
  have hdecoded : aacStep 8192 (.turn (.decoded pcm)) s = some
      { consumeInFrame pcm (noteFrame ⟨0, 0⟩ aacOutputFrameSamples (writePcm pcm ⟨8192, 0, false⟩ s)) with
        call := some ⟨8192, 4096, false⟩, lastFailed := false } := by
    change aacTurn 8192 (.decoded pcm) s = _
    rw [aacTurn_decoded pcm hcall hin rfl, hlen, if_pos (by decide)]
    rfl
  have hcond : ∀ s, aacDecodes 4096 (.turn (.decoded pcm)) s := fun _ => ⟨pcm, rfl, hlen⟩
  have hrun := hs.snoc (hcond s) hdecoded
  generalize hnoted : consumeInFrame pcm
    (noteFrame ⟨0, 0⟩ aacOutputFrameSamples (writePcm pcm ⟨8192, 0, false⟩ s)) = noted at hrun
  have hnoted_out : noted.out.pcm_len = 0 := by
    have hsame := congrArg OutFrame.pcm_len (noted_out s ⟨0, 0⟩ aacOutputFrameSamples pcm ⟨8192, 0, false⟩)
    rw [← hnoted]
    exact hsame.trans hout
  have hdrained : noted.in_frames = [] := by
    rw [← hnoted]
    change s.in_frames.tail = []
    rw [hin, List.tail_cons]
  have hstopped : aacStep 8192 (.turn (.decoded pcm))
      { noted with call := some ⟨8192, 4096, false⟩, lastFailed := false } =
        some { noted with call := none, ret := 4, lastFailed := false } := by
    simp only [aacStep, step, aacTurn, hdrained]
  refine ⟨_, _, hrun.snoc (hcond _) hstopped, ?_⟩
  intro hexact
  have hfilled : Cp.filled { noted with call := none, ret := 4, lastFailed := false } = 0 := by
    change (if noted.out.state = .working then noted.out.pcm_len else 0) = 0
    rw [hnoted_out, ite_self]
  have hbytes := congrArg List.length hexact.2
  rw [hfilled, ← hnoted] at hbytes
  change (s.completed.flatten ++ []).length = (s.consumed ++ [pcm]).flatten.length at hbytes
  rw [hcompleted, hconsumed] at hbytes
  simp only [List.nil_append, List.flatten_singleton, List.flatten_nil, List.length_nil, hlen] at hbytes
  cases hbytes

end Theorems

end A2dp.CpDecode
