import LittleBuddy.Lib.Runs
import Mathlib.Data.List.Range
import Mathlib.Logic.Function.Basic
/-!
# The output ring of the coprocessor

`apps/audioplayers/a2dp_decoder/a2dp_decoder_cp.c` passes decoded frames from
the coprocessor (CP) to the MCU in a ring of three slots. The CP fills the slot
at `cp_out_widx`, the MCU empties the slot at `cp_out_ridx`, and the state of a
slot says whose turn it is. Both cores run at once, so each access to shared
data is a step of its own. The MCU asks for a reset, and the CP executes it.
-/
open Runs

namespace A2dp.CpOut

/-! ## The code -/

/-- `CP_OUT_FRAME_CNT` and `CP_PROC_DELAY_QTY`. -/
abbrev outFrameCnt : Nat := 3
abbrev procDelayQty : Nat := 4

/-- `CP_DEC_STATE_T`. -/
inductive DecState where
  | idle
  | working
  | done
  | initDone
  deriving DecidableEq

/-- `out_frames` with their parts of `cp_out_cache`, the indexes and `reset_frames`. -/
structure Shared (Data : Type) where
  state : Nat → DecState
  buf : Nat → Data
  widx : Nat
  ridx : Nat
  reset_frames : Bool

variable {Data : Type}

/-- `a2dp_cp_init` refuses other delays. -/
def a2dpCpInit (delay : Nat) : Option Nat := if delay ≥ procDelayQty then none else some delay

/-- `idle_cnt` of `reset_frame_info`; `CP_PROC_DELAY_0_FRAME` is 0 and `CP_PROC_DELAY_1_FRAME` is 1. -/
def idleCnt (delay : Nat) : Nat :=
  if delay = 0 then outFrameCnt else if delay = 1 then outFrameCnt - 1 else outFrameCnt - 2

/-- `reset_frame_info`, as far as the output ring is concerned. -/
def resetFrameInfo (delay : Nat) (s : Shared Data) : Shared Data :=
  { s with
    state := fun i => if i < outFrameCnt then (if i < idleCnt delay then .idle else .initDone) else s.state i
    widx := 0, ridx := idleCnt delay, reset_frames := false }

/-- The index behind `i`. -/
def nextIdx (i : Nat) : Nat := if i + 1 ≥ outFrameCnt then i + 1 - outFrameCnt else i + 1

def Shared.setState (s : Shared Data) (i : Nat) (st : DecState) : Shared Data :=
  { s with state := Function.update s.state i st }

/-! ## Two cores -/

/-- Where the CP is: past the test of `reset_frames` in
`a2dp_cp_get_emtpy_out_frame` and about to mark its slot as working, or past it
in `a2dp_cp_consume_emtpy_out_frame`, about to mark the slot as done, or to
advance the index. -/
inductive CpPc where
  | main
  | getEmpty
  | markWorking (out_widx : Nat)
  | consumeEmpty
  | markDone (out_widx : Nat)
  | advance (out_widx : Nat)
  deriving DecidableEq

/-- The same for `a2dp_cp_get_full_out_frame` and `a2dp_cp_consume_full_out_frame` of the MCU. -/
inductive McuPc where
  | main
  | getFull
  | consumeFull
  | markIdle (out_ridx : Nat)
  | advance (out_ridx : Nat)
  deriving DecidableEq

/-- `held` is the slot that the CP has got as empty, `got` the one that the MCU
has got as full. `completed` are the frames that the CP has completed since the
last reset, `delivered` those that the MCU has consumed, and `unconsumed` the
slots with a frame, or with the silence of a reset, that it has not consumed. -/
structure Sys (Data : Type) where
  sh : Shared Data
  cp : CpPc
  mcu : McuPc
  held : Option Nat
  got : Option Nat
  completed : List Data
  delivered : List Data
  unconsumed : List Nat

/-- A call begins with its test of `reset_frames`; `cpStep` and `mcuStep` go on
with the call under way. -/
inductive Event (Data : Type) where
  | cpGetEmpty
  | cpConsumeEmpty
  | cpFill (data : Data)
  | cpReset
  | cpStep
  | mcuGetFull
  | mcuConsumeFull
  | mcuResetFrame
  | mcuStep

def cpStep (s : Sys Data) : Option (Sys Data) :=
  match s.cp with
  | .main => none
  | .getEmpty =>
    let out_widx := s.sh.widx
    match s.sh.state out_widx with
    | .idle => some { s with cp := .markWorking out_widx }
    | .working => some { s with cp := .main, held := some out_widx }
    | _ => some { s with cp := .main }
  | .markWorking out_widx =>
    some { s with sh := s.sh.setState out_widx .working, cp := .main, held := some out_widx }
  | .consumeEmpty =>
    let out_widx := s.sh.widx
    if s.sh.state out_widx = .working then some { s with cp := .markDone out_widx } else some { s with cp := .main }
  | .markDone out_widx =>
    some { s with sh := s.sh.setState out_widx .done, cp := .advance out_widx, held := none,
                  completed := s.completed ++ [s.sh.buf out_widx], unconsumed := s.unconsumed ++ [out_widx] }
  | .advance out_widx => some { s with sh := { s.sh with widx := nextIdx out_widx }, cp := .main }

def mcuStep (s : Sys Data) : Option (Sys Data) :=
  match s.mcu with
  | .main => none
  | .getFull =>
    let out_ridx := s.sh.ridx
    if s.sh.state out_ridx = .done then some { s with mcu := .main, got := some out_ridx }
    else some { s with mcu := .main }
  | .consumeFull =>
    let out_ridx := s.sh.ridx
    if s.sh.state out_ridx = .done ∨ s.sh.state out_ridx = .initDone then some { s with mcu := .markIdle out_ridx }
    else some { s with mcu := .main }
  | .markIdle out_ridx =>
    some { s with sh := s.sh.setState out_ridx .idle, mcu := .advance out_ridx, got := none,
                  delivered := if s.sh.state out_ridx = .done then s.delivered ++ [s.sh.buf out_ridx] else s.delivered
                  unconsumed := s.unconsumed.erase out_ridx }
  | .advance out_ridx => some { s with sh := { s.sh with ridx := nextIdx out_ridx }, mcu := .main }

/-- The CP resets in `cp_a2dp_main`, outside of its other calls; all that the
MCU can do meanwhile is to find `reset_frames` set, or to set it again. -/
def step (delay : Nat) : Event Data → Sys Data → Option (Sys Data)
  | .cpGetEmpty, s =>
    if s.cp = .main then some (if s.sh.reset_frames then s else { s with cp := .getEmpty }) else none
  | .cpConsumeEmpty, s =>
    if s.cp = .main then some (if s.sh.reset_frames then s else { s with cp := .consumeEmpty }) else none
  | .cpFill data, s =>
    match s.cp, s.held with
    | .main, some slot => some { s with sh := { s.sh with buf := Function.update s.sh.buf slot data } }
    | _, _ => none
  | .cpReset, s =>
    if s.cp = .main ∧ s.sh.reset_frames = true then
      some { s with sh := resetFrameInfo delay s.sh, held := none, got := none, completed := [], delivered := [],
                    unconsumed := (List.range outFrameCnt).drop (idleCnt delay) }
    else none
  | .cpStep, s => cpStep s
  | .mcuGetFull, s =>
    if s.mcu = .main then some (if s.sh.reset_frames then s else { s with mcu := .getFull }) else none
  | .mcuConsumeFull, s =>
    if s.mcu = .main then some (if s.sh.reset_frames then s else { s with mcu := .consumeFull }) else none
  | .mcuResetFrame, s =>
    if s.mcu = .main then some { s with sh := { s.sh with reset_frames := true } } else none
  | .mcuStep, s => mcuStep s

/-- After `a2dp_cp_decoder_init`. -/
def init (delay : Nat) (s : Sys Data) : Prop :=
  ∃ sh, s = { sh := resetFrameInfo delay sh, cp := .main, mcu := .main, held := none, got := none, completed := [],
              delivered := [], unconsumed := (List.range outFrameCnt).drop (idleCnt delay) }

/-- Both indexes are in range, the MCU has got the first frames completed, each
once and in order, and has the next one when it gets one; and the CP has not got
a slot that the MCU has not consumed. -/
structure InOrder (s : Sys Data) : Prop where
  widx_lt : s.sh.widx < outFrameCnt
  ridx_lt : s.sh.ridx < outFrameCnt
  delivered : s.delivered <+: s.completed
  got : ∀ r, s.got = some r → s.completed[s.delivered.length]? = some (s.sh.buf r)
  held : ∀ w, s.held = some w → w ∉ s.unconsumed

/-! ## The window between the indexes

Positions count the slots that pass by each index; the position `x` is the slot
`x % 3`, and the first completed frame has position 3. -/

/-- The write position. -/
def Sys.wp (s : Sys Data) : Nat := outFrameCnt + s.completed.length

/-- What each core knows at its place. -/
def CpAt (cp : CpPc) (sh : Shared Data) (wp : Nat) : Prop :=
  match cp with
  | .main | .getEmpty | .consumeEmpty => sh.widx = wp % 3
  | .markWorking w => sh.widx = wp % 3 ∧ w = wp % 3 ∧ sh.state w = .idle
  | .markDone w => sh.widx = wp % 3 ∧ w = wp % 3 ∧ sh.state w = .working
  | .advance w => sh.widx = w ∧ w = (wp + 2) % 3

def McuAt (mcu : McuPc) (ridx rp wp : Nat) : Prop :=
  match mcu with
  | .main | .getFull | .consumeFull => ridx = rp % 3
  | .markIdle r => ridx = rp % 3 ∧ r = rp % 3 ∧ rp < wp
  | .advance r => ridx = r ∧ r = (rp + 2) % 3

/-- The slots from the read position `rp` up to the write position are full, the
others are empty, and only the one at the write position may be worked on. -/
structure Window (rp : Nat) (s : Sys Data) : Prop where
  le : rp ≤ s.wp
  room : s.wp ≤ rp + 3
  full : ∀ x, rp ≤ x → x < s.wp → s.sh.state (x % 3) = if x < 3 then .initDone else .done
  data : ∀ x, rp ≤ x → 3 ≤ x → x < s.wp → s.completed[x - 3]? = some (s.sh.buf (x % 3))
  empty : ∀ x, s.wp < x → x < rp + 3 → s.sh.state (x % 3) = .idle
  next : s.wp < rp + 3 → s.sh.state (s.wp % 3) = .idle ∨ s.sh.state (s.wp % 3) = .working
  delivered : s.delivered = s.completed.take (rp - 3)
  unconsumed : s.unconsumed = (List.range' rp (s.wp - rp)).map (· % 3)
  cp : CpAt s.cp s.sh s.wp
  mcu : McuAt s.mcu s.sh.ridx rp s.wp
  quiet : s.mcu ≠ .main → s.sh.reset_frames = false
  held : ∀ w, s.held = some w → w = s.wp % 3 ∧ s.sh.state w = .working
  got : ∀ r, s.got = some r → r = rp % 3 ∧ rp < s.wp ∧ 3 ≤ rp

variable {s s' : Sys Data} {rp delay : Nat}

theorem setState_state (sh : Shared Data) (i j : Nat) (st : DecState) :
    (sh.setState i st).state j = if j = i then st else sh.state j := by
  simp [Shared.setState, Function.update_apply]

theorem setState_state_of_ne {sh : Shared Data} {i j : Nat} {st : DecState} (h : sh.state j ≠ sh.state i) :
    (sh.setState i st).state j = sh.state j := by
  rw [setState_state, if_neg]
  rintro rfl
  exact h rfl

theorem nextIdx_eq {i : Nat} (h : i < 3) : nextIdx i = (i + 1) % 3 := by
  unfold nextIdx outFrameCnt
  split <;> omega

theorem Window.state_ne {x : Nat} (h : Window rp s) (hx : rp ≤ x) (hxw : x < s.wp) :
    s.sh.state (x % 3) ≠ .idle ∧ s.sh.state (x % 3) ≠ .working := by
  rw [h.full x hx hxw]
  split <;> simp

/-- There is room at the write position unless its slot is full. -/
theorem Window.lt_of_state (h : Window rp s)
    (hst : s.sh.state (s.wp % 3) = .idle ∨ s.sh.state (s.wp % 3) = .working) : s.wp < rp + 3 := by
  by_contra hfull
  have hroom := h.room
  obtain ⟨hidle, hworking⟩ := h.state_ne (Nat.le_refl rp) (by omega)
  have hsame : rp % 3 = s.wp % 3 := by omega
  rw [hsame] at hidle hworking
  rcases hst with hst | hst
  · exact hidle hst
  · exact hworking hst

theorem Window.inOrder (h : Window rp s) : InOrder s := by
  refine ⟨?_, ?_, ?_, ?_, ?_⟩
  · have hcp := h.cp
    unfold CpAt at hcp
    cases hpc : s.cp <;> simp only [hpc] at hcp <;> unfold outFrameCnt <;> omega
  · have hmcu := h.mcu
    unfold McuAt at hmcu
    cases hpc : s.mcu <;> simp only [hpc] at hmcu <;> unfold outFrameCnt <;> omega
  · rw [h.delivered]
    exact List.take_prefix ..
  · intro r hr
    obtain ⟨rfl, hlt, h3⟩ := h.got r hr
    have hlen : s.delivered.length = rp - 3 := by
      have hwp : s.wp = 3 + s.completed.length := rfl
      rw [h.delivered, List.length_take]
      omega
    rw [hlen]
    exact h.data rp (Nat.le_refl rp) h3 hlt
  · intro w hw hmem
    obtain ⟨rfl, hst⟩ := h.held w hw
    rw [h.unconsumed] at hmem
    obtain ⟨x, hx, hxw⟩ := List.mem_map.1 hmem
    obtain ⟨hle, hlt⟩ := List.mem_range'_1.1 hx
    have hroom := h.le
    exact (h.state_ne hle (by omega)).2 (by rw [hxw]; exact hst)

theorem McuAt.mono {mcu : McuPc} {ridx wp wp' : Nat} (h : McuAt mcu ridx rp wp) (hle : wp ≤ wp') :
    McuAt mcu ridx rp wp' := by
  cases mcu with
  | main | getFull | consumeFull | advance _ => exact h
  | markIdle r => exact ⟨h.1, h.2.1, Nat.lt_of_lt_of_le h.2.2 hle⟩

/-- The place of the CP is about its index and the slot states only. -/
theorem CpAt.congr {cp : CpPc} {sh sh' : Shared Data} {wp : Nat} (h : CpAt cp sh wp) (hwidx : sh'.widx = sh.widx)
    (hstate : ∀ i, sh'.state i = sh.state i) : CpAt cp sh' wp := by
  unfold CpAt at h ⊢
  simpa only [hwidx, hstate] using h

/-! ## The steps of the CP -/

/-- A step of the CP that changes no slot and no frame. -/
theorem Window.cp_to {cp : CpPc} {held : Option Nat} (h : Window rp s) (hcp : CpAt cp s.sh s.wp)
    (hheld : ∀ w, held = some w → w = s.wp % 3 ∧ s.sh.state w = .working) : Window rp { s with cp, held } :=
  { h with cp := hcp, held := hheld }

theorem Window.getEmpty (h : Window rp s) (hpc : s.cp = .getEmpty) (hs : cpStep s = some s') : Window rp s' := by
  have hw : s.sh.widx = s.wp % 3 := by simpa [CpAt, hpc] using h.cp
  cases hst : s.sh.state (s.wp % 3) with
  | idle =>
    obtain rfl : { s with cp := .markWorking (s.wp % 3), held := s.held } = s' := by
      simpa [cpStep, hpc, hw, hst] using hs
    exact h.cp_to ⟨hw, rfl, hst⟩ h.held
  | working =>
    obtain rfl : { s with cp := .main, held := some (s.wp % 3) } = s' := by simpa [cpStep, hpc, hw, hst] using hs
    exact h.cp_to hw (by rintro _ ⟨⟩; exact ⟨rfl, hst⟩)
  | done | initDone =>
    obtain rfl : { s with cp := .main, held := s.held } = s' := by simpa [cpStep, hpc, hw, hst] using hs
    exact h.cp_to hw h.held

theorem Window.markWorking {w : Nat} (h : Window rp s) (hpc : s.cp = .markWorking w) (hs : cpStep s = some s') :
    Window rp s' := by
  obtain ⟨hw, rfl, hst⟩ : s.sh.widx = s.wp % 3 ∧ w = s.wp % 3 ∧ s.sh.state w = .idle := by simpa [CpAt, hpc] using h.cp
  have hle := h.le
  have hroom := h.lt_of_state (.inl hst)
  obtain rfl : { s with sh := s.sh.setState (s.wp % 3) .working, cp := .main, held := some (s.wp % 3) } = s' := by
    simpa [cpStep, hpc] using hs
  refine { h with full := ?_, empty := ?_, next := ?_, cp := hw, held := ?_ }
  · intro x hx (hxw : x < s.wp)
    rw [setState_state, if_neg (by omega)]
    exact h.full x hx hxw
  · intro x (hx : s.wp < x) hxr
    rw [setState_state, if_neg (by omega)]
    exact h.empty x hx hxr
  · intro _
    exact .inr (by rw [setState_state]; exact if_pos rfl)
  · rintro _ ⟨⟩
    exact ⟨rfl, by rw [setState_state, if_pos rfl]⟩

theorem Window.consumeEmpty (h : Window rp s) (hpc : s.cp = .consumeEmpty) (hs : cpStep s = some s') :
    Window rp s' := by
  have hw : s.sh.widx = s.wp % 3 := by simpa [CpAt, hpc] using h.cp
  by_cases hst : s.sh.state (s.wp % 3) = .working
  · obtain rfl : { s with cp := .markDone (s.wp % 3), held := s.held } = s' := by
      simpa [cpStep, hpc, hw, hst] using hs
    exact h.cp_to ⟨hw, rfl, hst⟩ h.held
  · obtain rfl : { s with cp := .main, held := s.held } = s' := by simpa [cpStep, hpc, hw, hst] using hs
    exact h.cp_to hw h.held

/-- The frame is completed: the write position moves on. -/
theorem Window.markDone {w : Nat} (h : Window rp s) (hpc : s.cp = .markDone w) (hs : cpStep s = some s') :
    Window rp s' := by
  obtain ⟨hw, rfl, hst⟩ : s.sh.widx = s.wp % 3 ∧ w = s.wp % 3 ∧ s.sh.state w = .working := by
    simpa [CpAt, hpc] using h.cp
  have hroom := h.lt_of_state (.inr hst)
  obtain rfl : { s with sh := s.sh.setState (s.wp % 3) .done, cp := .advance (s.wp % 3), held := none,
                        completed := s.completed ++ [s.sh.buf (s.wp % 3)],
                        unconsumed := s.unconsumed ++ [s.wp % 3] } = s' := by
    simpa [cpStep, hpc] using hs
  have hlen : s.wp = 3 + s.completed.length := rfl
  have hle := h.le
  have hwp : Sys.wp { s with sh := s.sh.setState (s.wp % 3) .done, cp := .advance (s.wp % 3), held := none,
                             completed := s.completed ++ [s.sh.buf (s.wp % 3)],
                             unconsumed := s.unconsumed ++ [s.wp % 3] } = s.wp + 1 := by
    simp [Sys.wp, Nat.add_assoc]
  refine ⟨by omega, by omega, ?_, ?_, ?_, ?_, ?_, ?_, ?_, ?_, h.quiet, ?_, ?_⟩
  · -- the slot at the old write position is full now; no other position up to it is the same slot
    intro x hx hxw
    rw [setState_state]
    by_cases hxwp : x = s.wp
    · subst hxwp
      rw [if_pos rfl, if_neg (by omega)]
    · rw [if_neg (by omega)]
      exact h.full x hx (by omega)
  · intro x hx h3 hxw
    by_cases hxwp : x = s.wp
    · subst hxwp
      simp [hlen]
      rfl
    · rw [List.getElem?_append_left (by omega)]
      exact h.data x hx h3 (by omega)
  · intro x hx hxr
    rw [setState_state, if_neg (by omega)]
    exact h.empty x (by omega) hxr
  · intro hlt
    rw [hwp, setState_state, if_neg (by omega)]
    exact .inl (h.empty (s.wp + 1) (by omega) (by omega))
  · rw [List.take_append_of_le_length (by omega)]
    exact h.delivered
  · have hsucc : s.wp + 1 - rp = (s.wp - rp) + 1 := by omega
    rw [hwp, hsucc, List.range'_concat, List.map_append, ← h.unconsumed]
    simp [Nat.add_sub_cancel' hle]
  · exact ⟨hw, by rw [hwp]; omega⟩
  · rw [hwp]
    exact h.mcu.mono (Nat.le_succ _)
  · rintro _ ⟨⟩
  · intro r hr
    obtain ⟨rfl, hlt, h3⟩ := h.got r hr
    exact ⟨rfl, by omega, h3⟩

theorem Window.cpAdvance {w : Nat} (h : Window rp s) (hpc : s.cp = .advance w) (hs : cpStep s = some s') :
    Window rp s' := by
  obtain ⟨hw, rfl⟩ : s.sh.widx = w ∧ w = (s.wp + 2) % 3 := by simpa [CpAt, hpc] using h.cp
  obtain rfl : { s with sh := { s.sh with widx := nextIdx ((s.wp + 2) % 3) }, cp := .main } = s' := by
    simpa [cpStep, hpc] using hs
  refine { h with cp := ?_ }
  show nextIdx ((s.wp + 2) % 3) = s.wp % 3
  rw [nextIdx_eq (by omega)]
  omega

/-! ## The steps of the MCU -/

/-- A step of the MCU that changes no slot. -/
theorem Window.mcu_to {mcu : McuPc} {got : Option Nat} (h : Window rp s) (hmcu : McuAt mcu s.sh.ridx rp s.wp)
    (hquiet : mcu ≠ .main → s.sh.reset_frames = false)
    (hgot : ∀ r, got = some r → r = rp % 3 ∧ rp < s.wp ∧ 3 ≤ rp) : Window rp { s with mcu, got } :=
  { h with mcu := hmcu, quiet := hquiet, got := hgot }

/-- A slot at the read position that is full lies in the window. -/
theorem Window.lt_of_full (h : Window rp s) (hst : s.sh.state (rp % 3) = .done ∨ s.sh.state (rp % 3) = .initDone) :
    rp < s.wp := by
  by_contra hge
  have hle := h.le
  have heq : s.wp = rp := by omega
  have hnext := h.next (by omega)
  rw [heq] at hnext
  rcases hst with hst | hst <;> simp [hst] at hnext

theorem Window.getFull (h : Window rp s) (hpc : s.mcu = .getFull) (hs : mcuStep s = some s') : Window rp s' := by
  have hr : s.sh.ridx = rp % 3 := by simpa [McuAt, hpc] using h.mcu
  by_cases hst : s.sh.state (rp % 3) = .done
  · obtain rfl : { s with mcu := .main, got := some (rp % 3) } = s' := by simpa [mcuStep, hpc, hr, hst] using hs
    have hlt := h.lt_of_full (.inl hst)
    refine h.mcu_to hr (by simp) ?_
    rintro _ ⟨⟩
    refine ⟨rfl, hlt, ?_⟩
    -- the slots of the reset are not done
    by_contra h3
    rw [h.full rp (Nat.le_refl rp) hlt, if_pos (by omega)] at hst
    cases hst
  · obtain rfl : { s with mcu := .main, got := s.got } = s' := by simpa [mcuStep, hpc, hr, hst] using hs
    exact h.mcu_to hr (by simp) h.got

theorem Window.consumeFull (h : Window rp s) (hpc : s.mcu = .consumeFull) (hs : mcuStep s = some s') :
    Window rp s' := by
  have hr : s.sh.ridx = rp % 3 := by simpa [McuAt, hpc] using h.mcu
  by_cases hst : s.sh.state (rp % 3) = .done ∨ s.sh.state (rp % 3) = .initDone
  · obtain rfl : { s with mcu := .markIdle (rp % 3), got := s.got } = s' := by
      simpa [mcuStep, hpc, hr, hst] using hs
    exact h.mcu_to ⟨hr, rfl, h.lt_of_full hst⟩ (fun _ => h.quiet (by simp [hpc])) h.got
  · obtain rfl : { s with mcu := .main, got := s.got } = s' := by simpa [mcuStep, hpc, hr, hst] using hs
    exact h.mcu_to hr (by simp) h.got

theorem CpAt.setState {cp : CpPc} {sh : Shared Data} {wp i : Nat} (h : CpAt cp sh wp) (hidle : sh.state i ≠ .idle)
    (hworking : sh.state i ≠ .working) : CpAt cp (sh.setState i .idle) wp := by
  cases cp with
  | main | getEmpty | consumeEmpty | advance _ => exact h
  | markWorking w =>
    obtain ⟨hw, hwp, hst⟩ := h
    exact ⟨hw, hwp, by rw [setState_state_of_ne (by rw [hst]; exact hidle.symm)]; exact hst⟩
  | markDone w =>
    obtain ⟨hw, hwp, hst⟩ := h
    exact ⟨hw, hwp, by rw [setState_state_of_ne (by rw [hst]; exact hworking.symm)]; exact hst⟩

/-- The slot is consumed: the read position moves on. -/
theorem Window.markIdle {r : Nat} (h : Window rp s) (hpc : s.mcu = .markIdle r) (hs : mcuStep s = some s') :
    Window (rp + 1) s' := by
  obtain ⟨hr, rfl, hlt⟩ : s.sh.ridx = rp % 3 ∧ r = rp % 3 ∧ rp < s.wp := by simpa [McuAt, hpc] using h.mcu
  have hroom := h.room
  have hst := h.full rp (Nat.le_refl rp) hlt
  obtain ⟨hidle, hworking⟩ := h.state_ne (Nat.le_refl rp) hlt
  obtain rfl : { s with sh := s.sh.setState (rp % 3) .idle, mcu := .advance (rp % 3), got := none,
                        delivered := if s.sh.state (rp % 3) = .done then s.delivered ++ [s.sh.buf (rp % 3)] else s.delivered,
                        unconsumed := s.unconsumed.erase (rp % 3) } = s' := by
    simpa [mcuStep, hpc] using hs
  refine ⟨hlt, (show s.wp ≤ rp + 1 + 3 by omega), ?_, ?_, ?_, ?_, ?_, ?_, ?_, ?_, ?_, ?_, ?_⟩
  · intro x hx (hxw : x < s.wp)
    rw [setState_state, if_neg (by omega)]
    exact h.full x (by omega) hxw
  · intro x hx h3 hxw
    exact h.data x (by omega) h3 hxw
  · intro x (hx : s.wp < x) hxr
    rw [setState_state]
    split
    · rfl
    · exact h.empty x hx (by omega)
  · intro _
    show (s.sh.setState (rp % 3) .idle).state (s.wp % 3) = .idle ∨ (s.sh.setState (rp % 3) .idle).state (s.wp % 3) = .working
    rw [setState_state]
    split
    · exact .inl rfl
    · exact h.next (by omega)
  · -- a slot of silence delivers nothing
    show (if s.sh.state (rp % 3) = .done then s.delivered ++ [s.sh.buf (rp % 3)] else s.delivered) = _
    by_cases h3 : rp < 3
    · rw [if_pos h3] at hst
      rw [if_neg (by simp [hst]), h.delivered, show rp - 3 = 0 by omega, show rp + 1 - 3 = 0 by omega]
    · rw [if_neg h3] at hst
      rw [if_pos hst, h.delivered, show rp + 1 - 3 = (rp - 3) + 1 by omega, List.take_add_one,
        h.data rp (Nat.le_refl rp) (by omega) hlt]
      rfl
  · have hsucc : s.wp - rp = (s.wp - (rp + 1)) + 1 := by omega
    show s.unconsumed.erase (rp % 3) = _
    rw [h.unconsumed, hsucc, List.range'_succ, List.map_cons, List.erase_cons_head]
    rfl
  · exact h.cp.setState hidle hworking
  · exact ⟨hr, by omega⟩
  · exact fun _ => h.quiet (by simp [hpc])
  · intro w hw
    obtain ⟨rfl, hwst⟩ := h.held w hw
    refine ⟨rfl, ?_⟩
    rw [setState_state_of_ne (by rw [hwst]; exact hworking.symm)]
    exact hwst
  · rintro _ ⟨⟩

theorem Window.mcuAdvance {r : Nat} (h : Window rp s) (hpc : s.mcu = .advance r) (hs : mcuStep s = some s') :
    Window rp s' := by
  obtain ⟨hr, rfl⟩ : s.sh.ridx = r ∧ r = (rp + 2) % 3 := by simpa [McuAt, hpc] using h.mcu
  obtain rfl : { s with sh := { s.sh with ridx := nextIdx ((rp + 2) % 3) }, mcu := .main } = s' := by
    simpa [mcuStep, hpc] using hs
  refine { h with cp := h.cp.congr rfl fun _ => rfl, mcu := ?_, quiet := by simp }
  show nextIdx ((rp + 2) % 3) = rp % 3
  rw [nextIdx_eq (by omega)]
  omega

/-! ## Whole runs -/

/-- After a reset the window is that of the silence. -/
theorem window_reset (hdelay : delay ≠ 0) (sh : Shared Data) :
    Window (idleCnt delay) { sh := resetFrameInfo delay sh, cp := .main, mcu := .main, held := none, got := none,
                             completed := [], delivered := [],
                             unconsumed := (List.range outFrameCnt).drop (idleCnt delay) } := by
  have hidle : idleCnt delay = 1 ∨ idleCnt delay = 2 := by
    unfold idleCnt outFrameCnt
    rw [if_neg hdelay]
    split <;> simp
  have hwp : Sys.wp { sh := resetFrameInfo delay sh, cp := .main, mcu := .main, held := none, got := none,
                      completed := [], delivered := [],
                      unconsumed := (List.range outFrameCnt).drop (idleCnt delay) } = 3 := rfl
  have hstate : ∀ i < 3, (resetFrameInfo delay sh).state i = if i < idleCnt delay then .idle else .initDone :=
    fun i hi => if_pos hi
  refine ⟨by omega, by omega, ?_, ?_, ?_, ?_, ?_, ?_, ?_, ?_, by simp, by simp, by simp⟩
  · intro x hx hxw
    rw [hstate _ (Nat.mod_lt x (by decide)), if_neg (by omega), if_pos (by omega)]
  · intro x hx h3 hxw
    omega
  · intro x hx hxr
    rw [hstate _ (Nat.mod_lt x (by decide)), if_pos (by omega)]
  · intro _
    rw [hwp, hstate _ (by decide), if_pos (by omega)]
    exact .inl rfl
  · simp
  · rw [hwp]
    show (List.range outFrameCnt).drop (idleCnt delay) = _
    rcases hidle with hidle | hidle <;> rw [hidle] <;> decide
  · rw [hwp]
    rfl
  · rcases hidle with hidle | hidle <;> simp [McuAt, resetFrameInfo, hidle]

theorem Window.fill {slot : Nat} {data : Data} (h : Window rp s) (hheld : s.held = some slot) :
    Window rp { s with sh := { s.sh with buf := Function.update s.sh.buf slot data } } := by
  obtain ⟨rfl, hst⟩ := h.held slot hheld
  have hother : ∀ x, rp ≤ x → x < s.wp → x % 3 ≠ s.wp % 3 := by
    intro x hx hxw heq
    exact (h.state_ne hx hxw).2 (by rw [heq]; exact hst)
  refine { h with data := ?_, cp := h.cp.congr rfl fun _ => rfl, got := h.got }
  intro x hx h3 hxw
  show s.completed[x - 3]? = some (Function.update s.sh.buf (s.wp % 3) data (x % 3))
  rw [Function.update_of_ne (hother x hx hxw)]
  exact h.data x hx h3 hxw

theorem step_window (hdelay : delay ≠ 0) (e : Event Data) (s s' : Sys Data) (h : ∃ rp, Window rp s)
    (hs : step delay e s = some s') : ∃ rp, Window rp s' := by
  obtain ⟨rp, h⟩ := h
  cases e with
  | cpGetEmpty =>
    simp only [step] at hs
    split_ifs at hs with hpc hreset
    · obtain rfl := Option.some.inj hs
      exact ⟨rp, h⟩
    · obtain rfl := Option.some.inj hs
      exact ⟨rp, h.cp_to (by simpa [CpAt, hpc] using h.cp) h.held⟩
  | cpConsumeEmpty =>
    simp only [step] at hs
    split_ifs at hs with hpc hreset
    · obtain rfl := Option.some.inj hs
      exact ⟨rp, h⟩
    · obtain rfl := Option.some.inj hs
      exact ⟨rp, h.cp_to (by simpa [CpAt, hpc] using h.cp) h.held⟩
  | cpFill data =>
    simp only [step] at hs
    split at hs
    · obtain rfl := Option.some.inj hs
      exact ⟨rp, h.fill ‹_›⟩
    · cases hs
  | cpReset =>
    simp only [step] at hs
    split_ifs at hs with hpc
    obtain rfl := Option.some.inj hs
    -- a reset is asked for outside of the calls of the MCU only
    have hmcu : s.mcu = .main := by
      by_contra hmcu
      simp [h.quiet hmcu] at hpc
    rw [hpc.1, hmcu]
    exact ⟨idleCnt delay, window_reset hdelay s.sh⟩
  | cpStep =>
    cases hpc : s.cp with
    | main => simp [step, cpStep, hpc] at hs
    | getEmpty => exact ⟨rp, h.getEmpty hpc hs⟩
    | markWorking w => exact ⟨rp, h.markWorking hpc hs⟩
    | consumeEmpty => exact ⟨rp, h.consumeEmpty hpc hs⟩
    | markDone w => exact ⟨rp, h.markDone hpc hs⟩
    | advance w => exact ⟨rp, h.cpAdvance hpc hs⟩
  | mcuGetFull =>
    simp only [step] at hs
    split_ifs at hs with hpc hreset
    · obtain rfl := Option.some.inj hs
      exact ⟨rp, h⟩
    · obtain rfl := Option.some.inj hs
      exact ⟨rp, h.mcu_to (by simpa [McuAt, hpc] using h.mcu) (fun _ => by simpa using hreset) h.got⟩
  | mcuConsumeFull =>
    simp only [step] at hs
    split_ifs at hs with hpc hreset
    · obtain rfl := Option.some.inj hs
      exact ⟨rp, h⟩
    · obtain rfl := Option.some.inj hs
      exact ⟨rp, h.mcu_to (by simpa [McuAt, hpc] using h.mcu) (fun _ => by simpa using hreset) h.got⟩
  | mcuResetFrame =>
    simp only [step] at hs
    split_ifs at hs with hpc
    obtain rfl := Option.some.inj hs
    exact ⟨rp, { h with cp := h.cp.congr rfl fun _ => rfl, quiet := fun hmcu => absurd hpc hmcu }⟩
  | mcuStep =>
    cases hpc : s.mcu with
    | main => simp [step, mcuStep, hpc] at hs
    | getFull => exact ⟨rp, h.getFull hpc hs⟩
    | consumeFull => exact ⟨rp, h.consumeFull hpc hs⟩
    | markIdle r => exact ⟨rp + 1, h.markIdle hpc hs⟩
    | advance r => exact ⟨rp, h.mcuAdvance hpc hs⟩

end A2dp.CpOut
