import Mathlib.Data.List.Infix
import LittleBuddy.Lib.Transducer
/-!
# The resampler of the audio streams

`app_playback_resample_run` and `app_capture_resample_run` of
`services/bt_app/app_bt_stream.cpp` put a resampler between buffers of any length
and blocks of `iter_len` bytes. What is left of a block, and how far it is filled,
is carried from call to call in `iter_buf` and `offset`.

The resampler itself, `audio_resample_ex_run`, is a parameter: a machine that is
offered input and room for output.
-/

namespace BtApp.Resample

open Transducer

/-! ## The code -/

/-- `RESAMPLE_STATUS_T`. -/
inductive ResampleStatus where
  | ok | error | noCoef | noCoefGroup | badCoefNum | badFactor | noBuf | bufMisalign | bufTooSmall | badId
  | outFull | inEmpty | done
  deriving DecidableEq

/-- The statuses with which the callers of `audio_resample_ex_run` go on. -/
def ResampleStatus.goesOn (status : ResampleStatus) : Bool := status = .outFull || status = .inEmpty || status = .done

/-- `audio_resample_ex.h`: a resampler as it is opened, its run and its flush. -/
structure AudioResampleEx (σ : Type) where
  opened : σ
  run : Machine σ UInt8 UInt8
  status : σ → List UInt8 → Nat → ResampleStatus
  flush : σ → σ

/-- `APP_RESAMPLE_T`. In `calls` is what `iter_buf` held for each call of `cb`: what the
callback of a playback put there, and what the callback of a capture was given. -/
structure AppResample (σ : Type) where
  id : σ
  iter_buf : List UInt8
  iter_len : Nat
  offset : Nat
  calls : List (List UInt8)

/-- A call ends in an assertion, it does not end, or it returns. -/
inductive Outcome (τ : Type) where
  | asserts
  | endless
  | returns (result : τ)

/-- What `f` makes of the result. -/
def Outcome.bind {τ υ : Type} (o : Outcome τ) (f : τ → Outcome υ) : Outcome υ :=
  match o with
  | asserts => asserts
  | endless => endless
  | returns result => f result

/-- What a run returns: `ret`, the content of `buf`, and `resamp`. -/
structure Result (σ : Type) where
  ret : Int
  buf : List UInt8
  resamp : Option (AppResample σ)

/-- The result of what is run on the rest of the buffer, behind `out`. -/
def Outcome.behind {σ : Type} (out : List UInt8) (o : Outcome (Result σ)) : Outcome (Result σ) :=
  o.bind fun result => .returns { result with buf := out ++ result.buf }

/-- `memzero_int16`: an odd last byte stays. -/
def memzeroInt16 (buf : List UInt8) : List UInt8 :=
  List.replicate (buf.length / 2 * 2) 0 ++ buf.drop (buf.length / 2 * 2)

variable {σ : Type} (ex : AudioResampleEx σ)

/-- `app_resample_open`. -/
def appResampleOpen (iter_buf : List UInt8) : AppResample σ :=
  { id := ex.opened, iter_buf, iter_len := iter_buf.length, offset := iter_buf.length, calls := [] }

/-- `app_resample_reset`. -/
def appResampleReset (resamp : AppResample σ) : AppResample σ :=
  { resamp with id := ex.flush resamp.id, offset := resamp.iter_len }

/-- `_err_exit`. -/
def errExit (resamp : AppResample σ) (buf : List UInt8) : Outcome (Result σ) :=
  .returns ⟨1, memzeroInt16 buf, some (appResampleReset ex resamp)⟩

/-- The callback of a playback: its `k`-th call fills `iter_buf` and returns `ret k`. -/
structure IterCallback (iter_len : Nat) where
  block : Nat → List UInt8
  length_block : ∀ k, (block k).length = iter_len
  ret : Nat → Int

/-- The first `k` blocks. -/
def IterCallback.blocks {iter_len : Nat} (cb : IterCallback iter_len) (k : Nat) : List (List UInt8) :=
  (List.range k).map cb.block

/-- The loop of `app_playback_resample_run`. -/
def playbackLoop {iter_len : Nat} (cb : IterCallback iter_len) (fuel : Nat) (resamp : AppResample σ) (buf : List UInt8) :
    Outcome (Result σ) :=
  if buf.length = 0 then .returns ⟨0, buf, some resamp⟩
  else
    match fuel with
    | 0 => .endless
    | fuel + 1 =>
      let ret := cb.ret resamp.calls.length
      let block := cb.block resamp.calls.length
      let resamp := { resamp with iter_buf := block, calls := resamp.calls ++ [block] }
      if ret ≠ 0 then errExit ex resamp buf
      else
        let status := ex.status resamp.id resamp.iter_buf buf.length
        let io := ex.run resamp.id resamp.iter_buf buf.length
        let resamp := { resamp with id := io.state }
        if !status.goesOn then errExit ex resamp (io.out ++ buf.drop io.out.length)
        else if ¬io.out.length ≤ buf.length then .asserts
        else if ¬io.taken ≤ resamp.iter_len then .asserts
        else
          let rest := buf.drop io.out.length
          if io.taken ≠ resamp.iter_len then
            if ¬rest.length = 0 then .asserts
            else (playbackLoop cb fuel { resamp with offset := io.taken } rest).behind io.out
          else (playbackLoop cb fuel resamp rest).behind io.out

/-- `app_playback_resample_run`. -/
def appPlaybackResampleRun {iter_len : Nat} (cb : IterCallback iter_len) (fuel : Nat) (resamp : Option (AppResample σ))
    (buf : List UInt8) : Outcome (Result σ) :=
  match resamp with
  | none => .returns ⟨1, memzeroInt16 buf, none⟩
  | some resamp =>
    if resamp.offset < resamp.iter_len then
      let inp := (resamp.iter_buf.drop resamp.offset).take (resamp.iter_len - resamp.offset)
      let status := ex.status resamp.id inp buf.length
      let io := ex.run resamp.id inp buf.length
      let resamp := { resamp with id := io.state }
      if !status.goesOn then errExit ex resamp (io.out ++ buf.drop io.out.length)
      else
        let rest := buf.drop io.out.length
        let resamp := { resamp with offset := resamp.offset + io.taken }
        if ¬(rest.length = 0 ∨ resamp.offset = resamp.iter_len) then .asserts
        else (playbackLoop ex cb fuel resamp rest).behind io.out
    else playbackLoop ex cb fuel resamp buf

/-- What is written to `iter_buf` from `offset` on. -/
def AppResample.written (resamp : AppResample σ) (offset : Nat) (out : List UInt8) : List UInt8 :=
  resamp.iter_buf.take offset ++ out ++ resamp.iter_buf.drop (offset + out.length)

/-- `cb` of a capture is called with `iter_buf`; its `k`-th call returns `ret k`. -/
def AppResample.called (resamp : AppResample σ) : AppResample σ :=
  { resamp with calls := resamp.calls ++ [resamp.iter_buf.take resamp.iter_len] }

/-- The loop of `app_capture_resample_run`. -/
def captureLoop (ret : Nat → Int) (fuel : Nat) (resamp : AppResample σ) (buf : List UInt8) : Outcome (Result σ) :=
  if buf.length = 0 then .returns ⟨0, buf, some resamp⟩
  else
    match fuel with
    | 0 => .endless
    | fuel + 1 =>
      let status := ex.status resamp.id buf resamp.iter_len
      let io := ex.run resamp.id buf resamp.iter_len
      let resamp := { resamp with id := io.state, iter_buf := resamp.written 0 io.out }
      if !status.goesOn then errExit ex resamp buf
      else if ¬io.taken ≤ buf.length then .asserts
      else if ¬io.out.length ≤ resamp.iter_len then .asserts
      else
        let rest := buf.drop io.taken
        if io.out.length = resamp.iter_len then
          if ret resamp.calls.length ≠ 0 then (errExit ex resamp.called rest).behind (buf.take io.taken)
          else (captureLoop ret fuel resamp.called rest).behind (buf.take io.taken)
        else if ¬rest.length = 0 then .asserts
        else (captureLoop ret fuel { resamp with offset := io.out.length } rest).behind (buf.take io.taken)

/-- `app_capture_resample_run`. -/
def appCaptureResampleRun (ret : Nat → Int) (fuel : Nat) (resamp : Option (AppResample σ)) (buf : List UInt8) :
    Outcome (Result σ) :=
  match resamp with
  | none => .returns ⟨1, memzeroInt16 buf, none⟩
  | some resamp =>
    if resamp.offset < resamp.iter_len then
      let room := resamp.iter_len - resamp.offset
      let status := ex.status resamp.id buf room
      let io := ex.run resamp.id buf room
      let resamp := { resamp with id := io.state, iter_buf := resamp.written resamp.offset io.out }
      if !status.goesOn then errExit ex resamp buf
      else
        let rest := buf.drop io.taken
        let resamp := { resamp with offset := resamp.offset + io.out.length }
        if ¬(rest.length = 0 ∨ resamp.offset = resamp.iter_len) then .asserts
        else if resamp.offset = resamp.iter_len then
          if ret resamp.calls.length ≠ 0 then (errExit ex resamp.called rest).behind (buf.take io.taken)
          else (captureLoop ex ret fuel resamp.called rest).behind (buf.take io.taken)
        else (captureLoop ex ret fuel resamp rest).behind (buf.take io.taken)
    else captureLoop ex ret fuel resamp buf

/-- Calls with one buffer after the other: the results and what is left. -/
def runs (run : Option (AppResample σ) → List UInt8 → Outcome (Result σ)) (resamp : Option (AppResample σ)) :
    List (List UInt8) → Outcome (List (Int × List UInt8) × Option (AppResample σ))
  | [] => .returns ([], resamp)
  | buf :: bufs =>
    (run resamp buf).bind fun result =>
      (runs run result.resamp bufs).bind fun (rets, resamp) => .returns ((result.ret, result.buf) :: rets, resamp)

/-! ## What is asked of the resampler -/

/-- It resamples by `R`, with a status that lets its callers go on, and a flush
brings it back to where it was opened. -/
structure Resamples (R : List UInt8 → List UInt8) : Prop extends Transduces ex.run ex.opened R where
  goesOn : ∀ {s x y}, Total ex.run ex.opened s x y → ∀ inp room, (ex.status s inp room).goesOn = true
  flush_opened : ∀ s, ex.flush s = ex.opened

/-! ## Outcomes -/

/-- No assertion fires, and `P` holds of what is returned. -/
inductive Outcome.Holds {τ : Type} (P : τ → Prop) : Outcome τ → Prop
  | endless : Holds P .endless
  | returns {result : τ} (h : P result) : Holds P (.returns result)

section Outcomes

variable {σ τ υ : Type} {P : τ → Prop} {Q : υ → Prop} {o : Outcome τ} {f : τ → Outcome υ} {out : List UInt8}

theorem Outcome.Holds.ne_asserts (h : o.Holds P) : o ≠ .asserts := by
  rintro rfl
  cases h

theorem Outcome.Holds.of_returns {result : τ} (h : Holds P (.returns result)) : P result := by
  cases h with
  | returns h => exact h

theorem Outcome.Holds.mono {P' : τ → Prop} (h : o.Holds P) (hP : ∀ result, P result → P' result) : o.Holds P' := by
  cases h with
  | endless => exact .endless
  | returns h => exact .returns (hP _ h)

theorem Outcome.Holds.bind (h : o.Holds P) (hf : ∀ result, P result → (f result).Holds Q) : (o.bind f).Holds Q := by
  cases h with
  | endless => exact .endless
  | returns h => exact hf _ h

theorem Outcome.Holds.behind {P Q : Result σ → Prop} {o : Outcome (Result σ)} (h : o.Holds P)
    (hQ : ∀ result, P result → Q { result with buf := out ++ result.buf }) : (o.behind out).Holds Q :=
  h.bind fun result hresult => .returns (hQ result hresult)

@[simp] theorem Outcome.behind_nil (o : Outcome (Result σ)) : o.behind [] = o := by
  cases o <;> rfl

theorem Outcome.behind_returns {o : Outcome (Result σ)} (h : ∃ result, o = .returns result) :
    ∃ result, o.behind out = .returns result := by
  obtain ⟨result, rfl⟩ := h
  exact ⟨_, rfl⟩

end Outcomes

/-! ## Playback -/

section Playback

variable {ex} {R : List UInt8 → List UInt8} {iter_len : Nat} {cb : IterCallback iter_len} {resamp : AppResample σ}
  {n k fuel : Nat} {x y buf : List UInt8}

/-- Since the call with the number `n`, the resampler took `x` and put out `y`, and what the
callback gave is `x` and what `iter_buf` holds from `offset` on. -/
structure Playing (ex : AudioResampleEx σ) (cb : IterCallback iter_len) (n : Nat) (resamp : AppResample σ)
    (x y : List UInt8) : Prop where
  total : Total ex.run ex.opened resamp.id x y
  iter_len_eq : resamp.iter_len = iter_len
  iter_buf_length : resamp.iter_buf.length = iter_len
  offset_le : resamp.offset ≤ iter_len
  calls_eq : resamp.calls = cb.blocks resamp.calls.length
  le_calls : n ≤ resamp.calls.length
  taken : x ++ resamp.iter_buf.drop resamp.offset = (resamp.calls.drop n).flatten

theorem IterCallback.blocks_succ (cb : IterCallback iter_len) (k : Nat) : cb.blocks (k + 1) = cb.blocks k ++ [cb.block k] := by
  rw [IterCallback.blocks, List.range_succ, List.map_append]
  rfl

/-- The first blocks come first. -/
theorem IterCallback.blocks_mono (cb : IterCallback iter_len) {j k : Nat} (h : j ≤ k) : cb.blocks j <+: cb.blocks k := by
  induction h with
  | refl => exact List.prefix_rfl
  | step _ ih => exact ih.trans (cb.blocks_succ _ ▸ List.prefix_append _ _)

/-- The state behind a call of `audio_resample_ex_run` on what is left in `iter_buf`. -/
def fed (ex : AudioResampleEx σ) (resamp : AppResample σ) (room : Nat) : AppResample σ :=
  let io := ex.run resamp.id (resamp.iter_buf.drop resamp.offset) room
  { resamp with id := io.state, offset := resamp.offset + io.taken }

/-- The state behind a call of the callback. -/
def refilled (cb : IterCallback iter_len) (resamp : AppResample σ) : AppResample σ :=
  { resamp with
    iter_buf := cb.block resamp.calls.length
    offset := 0
    calls := resamp.calls ++ [cb.block resamp.calls.length] }

theorem Playing.reset (hflush : ∀ s, ex.flush s = ex.opened) (hr : Playing ex cb n resamp x y) :
    Playing ex cb resamp.calls.length (appResampleReset ex resamp) [] [] where
  total := by
    rw [appResampleReset, hflush]
    exact .start
  iter_len_eq := hr.iter_len_eq
  iter_buf_length := hr.iter_buf_length
  offset_le := Nat.le_of_eq hr.iter_len_eq
  calls_eq := hr.calls_eq
  le_calls := Nat.le_refl _
  taken := by
    have hend := Nat.le_of_eq (hr.iter_buf_length.trans hr.iter_len_eq.symm)
    simp only [appResampleReset, List.drop_length, List.flatten_nil, List.drop_of_length_le hend, List.append_nil]

theorem Playing.fed (h : Resamples ex R) (hr : Playing ex cb n resamp x y) (room : Nat) :
    let io := ex.run resamp.id (resamp.iter_buf.drop resamp.offset) room
    Playing ex cb n (fed ex resamp room) (x ++ (resamp.iter_buf.drop resamp.offset).take io.taken) (y ++ io.out) where
  total := .call hr.total _ _
  iter_len_eq := hr.iter_len_eq
  iter_buf_length := hr.iter_buf_length
  offset_le := by
    have hle := h.taken_le hr.total (resamp.iter_buf.drop resamp.offset) room
    rw [List.length_drop, hr.iter_buf_length] at hle
    have := hr.offset_le
    change resamp.offset + _ ≤ iter_len
    omega
  calls_eq := hr.calls_eq
  le_calls := hr.le_calls
  taken := by
    have htaken := hr.taken
    simp only [Resample.fed, ← List.drop_drop, List.append_assoc, List.take_append_drop]
    exact htaken

theorem Playing.refilled (hr : Playing ex cb n resamp x y) (hoff : resamp.offset = iter_len) :
    Playing ex cb n (refilled cb resamp) x y where
  total := hr.total
  iter_len_eq := hr.iter_len_eq
  iter_buf_length := cb.length_block _
  offset_le := Nat.zero_le _
  calls_eq := by
    simp only [Resample.refilled, List.length_append, List.length_singleton, IterCallback.blocks_succ, ← hr.calls_eq]
  le_calls := by
    simp only [Resample.refilled, List.length_append]
    exact Nat.le_add_right_of_le hr.le_calls
  taken := by
    have htaken := hr.taken
    rw [List.drop_of_length_le (Nat.le_of_eq (hr.iter_buf_length.trans hoff.symm)), List.append_nil] at htaken
    simp only [Resample.refilled, List.drop_zero, List.drop_append_of_le_length hr.le_calls, List.flatten_append, ← htaken,
      List.flatten_cons, List.flatten_nil, List.append_nil]

/-- One turn of the loop: the callback and the resampler. -/
theorem playbackLoop_step (fuel : Nat) (h : Resamples ex R) (hr : Playing ex cb n resamp x y) (hoff : resamp.offset = iter_len)
    (hbuf : buf.length ≠ 0) :
    let next := refilled cb resamp
    let out := (ex.run next.id next.iter_buf buf.length).out
    playbackLoop ex cb (fuel + 1) resamp buf =
        (if cb.ret resamp.calls.length ≠ 0 then errExit ex { next with offset := resamp.offset } buf
        else (playbackLoop ex cb fuel (fed ex next buf.length) (buf.drop out.length)).behind out) ∧
      out.length ≤ buf.length ∧
      ((fed ex next buf.length).offset = iter_len ∨ (buf.drop out.length).length = 0) := by
  have hnext := hr.refilled hoff
  have hlen : (cb.block resamp.calls.length).length = iter_len := cb.length_block _
  have htaken := h.taken_le hnext.total (refilled cb resamp).iter_buf buf.length
  have hout := h.out_le hnext.total (refilled cb resamp).iter_buf buf.length
  have hgoes := h.goesOn hnext.total (refilled cb resamp).iter_buf buf.length
  have hfull := h.full_of_input hnext.total ((refilled cb resamp).iter_buf) buf.length
  simp only [refilled, hlen] at htaken hout hgoes hfull
  refine ⟨?_, hout, ?_⟩
  · rw [playbackLoop, if_neg hbuf]
    simp only [refilled, fed, hgoes, Bool.not_true, Bool.false_eq_true, if_false, hr.iter_len_eq, hout, htaken, not_true,
      List.drop_zero, Nat.zero_add, hoff]
    split
    · rfl
    · split
      · rename_i hne
        rw [if_neg]
        rw [List.length_drop, hfull (by omega), Nat.sub_self]
        exact not_not.mpr rfl
      · rename_i heq
        rw [not_not.mp heq]
  · by_cases hall : (ex.run resamp.id (cb.block resamp.calls.length) buf.length).taken = iter_len
    · left
      simp only [fed, refilled, List.drop_zero, Nat.zero_add]
      exact hall
    · right
      simp only [refilled, List.length_drop]
      rw [hfull (by omega), Nat.sub_self]

/-- What a playback on `buf` leads to from `Playing ex cb n _ _ y`: the same, or, behind
an error of the callback, a fresh start. -/
def Played (ex : AudioResampleEx σ) (cb : IterCallback iter_len) (n : Nat) (y buf : List UInt8) (result : Result σ) : Prop :=
  ∃ m resamp x y', result.resamp = some resamp ∧ Playing ex cb m resamp x y' ∧
    ((∀ k, cb.ret k = 0) → result.ret = 0 ∧ m = n ∧ y' = y ++ result.buf ∧ result.buf.length = buf.length)

theorem Played.behind {out : List UInt8} {result : Result σ} (h : Played ex cb n (y ++ out) (buf.drop out.length) result)
    (hout : out.length ≤ buf.length) : Played ex cb n y buf { result with buf := out ++ result.buf } := by
  obtain ⟨m, resamp, x, y', hresamp, hr, hok⟩ := h
  refine ⟨m, resamp, x, y', hresamp, hr, fun hcb => ?_⟩
  obtain ⟨hret, hm, hy, hlen⟩ := hok hcb
  refine ⟨hret, hm, ?_, ?_⟩
  · rw [hy, List.append_assoc]
  · rw [List.length_drop] at hlen
    rw [List.length_append, hlen]
    omega

theorem playbackLoop_nil (hbuf : buf.length = 0) : playbackLoop ex cb fuel resamp buf = .returns ⟨0, buf, some resamp⟩ := by
  rw [playbackLoop.eq_def, if_pos hbuf]

theorem Playing.played_nil (hr : Playing ex cb n resamp x y) (hbuf : buf.length = 0) :
    Played ex cb n y buf ⟨0, buf, some resamp⟩ := by
  refine ⟨n, resamp, x, y, rfl, hr, fun _ => ⟨rfl, rfl, ?_, rfl⟩⟩
  rw [List.eq_nil_of_length_eq_zero hbuf, List.append_nil]

theorem playbackLoop_holds (h : Resamples ex R) (hr : Playing ex cb n resamp x y)
    (hoff : resamp.offset = iter_len ∨ buf.length = 0) :
    (playbackLoop ex cb fuel resamp buf).Holds (Played ex cb n y buf) := by
  induction fuel generalizing resamp x y buf with
  | zero =>
    by_cases hbuf : buf.length = 0
    · rw [playbackLoop_nil hbuf]
      exact .returns (hr.played_nil hbuf)
    · rw [playbackLoop, if_neg hbuf]
      exact .endless
  | succ fuel ih =>
    by_cases hbuf : buf.length = 0
    · rw [playbackLoop_nil hbuf]
      exact .returns (hr.played_nil hbuf)
    · have hoff := hoff.resolve_right hbuf
      obtain ⟨hstep, hout, hnext⟩ := playbackLoop_step fuel h hr hoff hbuf
      have hplaying := hr.refilled hoff
      rw [hstep]
      split
      · rename_i hret
        -- the callback failed: the resampler is flushed, and `iter_buf` is used up
        have hreset := Playing.reset h.flush_opened hplaying
        exact .returns ⟨_, _, [], [], rfl, hreset, fun hcb => absurd (hcb _) hret⟩
      · exact (ih (hplaying.fed h buf.length) hnext).behind fun result hresult => hresult.behind hout

/-- With blocks enough for what is asked for, the loop ends. -/
theorem playbackLoop_returns (h : Resamples ex R) (hcb : ∀ k, cb.ret k = 0) (hr : Playing ex cb 0 resamp x y)
    (hoff : resamp.offset = iter_len ∨ buf.length = 0) (hk : y.length + buf.length ≤ (R (cb.blocks k).flatten).length)
    (hfuel : k - resamp.calls.length < fuel) : ∃ result, playbackLoop ex cb fuel resamp buf = .returns result := by
  induction fuel generalizing resamp x y buf with
  | zero => omega
  | succ fuel ih =>
    by_cases hbuf : buf.length = 0
    · exact ⟨_, playbackLoop_nil hbuf⟩
    have hoff := hoff.resolve_right hbuf
    obtain ⟨hstep, hout, hnext⟩ := playbackLoop_step fuel h hr hoff hbuf
    have hplaying := hr.refilled hoff
    rw [hstep, if_neg (not_not.mpr (hcb _))]
    apply Outcome.behind_returns
    by_cases hrest : (buf.drop (ex.run (refilled cb resamp).id (refilled cb resamp).iter_buf buf.length).out.length).length = 0
    · exact ⟨_, playbackLoop_nil hrest⟩
    have hless := h.length_of_room hplaying.total ((refilled cb resamp).iter_buf) buf.length
      (by rw [List.length_drop] at hrest; omega) hk
    -- a block was taken in full, and the buffer is not full: so there were fewer than `k`
    have hcalls : resamp.calls.length + 1 < k := by
      by_contra hle
      have hblocks := hplaying.taken
      rw [hplaying.calls_eq] at hblocks
      simp only [refilled, List.drop_zero, List.length_append, List.length_singleton] at hblocks
      refine hless ?_
      simp only [refilled]
      rw [hblocks]
      exact (cb.blocks_mono (by omega)).flatten
    refine ih (hplaying.fed h buf.length) hnext ?_ ?_
    · simp only [refilled, List.drop_zero, List.length_append, List.length_drop] at hout ⊢
      omega
    · simp only [fed, refilled, List.length_append, List.length_singleton]
      omega

/-- A call begins with what is left in `iter_buf`, and goes on with the loop. -/
theorem appPlaybackResampleRun_eq (fuel : Nat) (buf : List UInt8) (h : Resamples ex R) (hr : Playing ex cb n resamp x y) :
    ∃ resamp' x' out, appPlaybackResampleRun ex cb fuel (some resamp) buf =
        (playbackLoop ex cb fuel resamp' (buf.drop out.length)).behind out ∧
      Playing ex cb n resamp' x' (y ++ out) ∧ out.length ≤ buf.length ∧ resamp'.calls = resamp.calls ∧
      (resamp'.offset = iter_len ∨ (buf.drop out.length).length = 0) := by
  by_cases hoff : resamp.offset < iter_len
  · have hinp : (resamp.iter_buf.drop resamp.offset).length = iter_len - resamp.offset := by
      rw [List.length_drop, hr.iter_buf_length]
    have htaken := h.taken_le hr.total (resamp.iter_buf.drop resamp.offset) buf.length
    have hout := h.out_le hr.total (resamp.iter_buf.drop resamp.offset) buf.length
    have hgoes := h.goesOn hr.total (resamp.iter_buf.drop resamp.offset) buf.length
    have hfull := h.full_of_input hr.total (resamp.iter_buf.drop resamp.offset) buf.length
    have hend : resamp.offset + (ex.run resamp.id (resamp.iter_buf.drop resamp.offset) buf.length).taken = iter_len ∨
        (buf.drop (ex.run resamp.id (resamp.iter_buf.drop resamp.offset) buf.length).out.length).length = 0 := by
      by_cases hall : (ex.run resamp.id (resamp.iter_buf.drop resamp.offset) buf.length).taken = iter_len - resamp.offset
      · left
        rw [hall]
        exact Nat.add_sub_cancel' (Nat.le_of_lt hoff)
      · right
        rw [List.length_drop, hfull (by omega), Nat.sub_self]
    refine ⟨fed ex resamp buf.length, _, _, ?_, hr.fed h buf.length, hout, rfl, hend⟩
    simp only [appPlaybackResampleRun, hr.iter_len_eq, hoff, if_true, List.take_of_length_le (Nat.le_of_eq hinp), hgoes,
      Bool.not_true, Bool.false_eq_true, if_false]
    rw [if_neg (not_not.mpr hend.symm)]
    simp only [fed, hr.iter_len_eq]
  · refine ⟨resamp, x, [], ?_, ?_, Nat.zero_le _, rfl, .inl ?_⟩
    · rw [appPlaybackResampleRun, if_neg (hr.iter_len_eq ▸ hoff), Outcome.behind_nil]
      rfl
    · rw [List.append_nil]
      exact hr
    · have := hr.offset_le
      omega

theorem appPlaybackResampleRun_holds (fuel : Nat) (buf : List UInt8) (h : Resamples ex R) (hr : Playing ex cb n resamp x y) :
    (appPlaybackResampleRun ex cb fuel (some resamp) buf).Holds (Played ex cb n y buf) := by
  obtain ⟨resamp', x', out, heq, hplaying, hout, _, hoff⟩ := appPlaybackResampleRun_eq fuel buf h hr
  rw [heq]
  exact (playbackLoop_holds h hplaying hoff).behind fun result hresult => hresult.behind hout

theorem appPlaybackResampleRun_returns (buf : List UInt8) (h : Resamples ex R) (hcb : ∀ k, cb.ret k = 0) (hr : Playing ex cb 0 resamp x y)
    (hk : y.length + buf.length ≤ (R (cb.blocks k).flatten).length) (hfuel : k < fuel) :
    ∃ result, appPlaybackResampleRun ex cb fuel (some resamp) buf = .returns result := by
  obtain ⟨resamp', x', out, heq, hplaying, hout, _, hoff⟩ := appPlaybackResampleRun_eq fuel buf h hr
  rw [heq]
  apply Outcome.behind_returns
  refine playbackLoop_returns (k := k) h hcb hplaying hoff ?_ (by omega)
  rw [List.length_append, List.length_drop]
  omega

theorem playing_opened (ex : AudioResampleEx σ) (cb : IterCallback iter_len) {iter_buf : List UInt8}
    (hlen : iter_buf.length = iter_len) : Playing ex cb 0 (appResampleOpen ex iter_buf) [] [] where
  total := .start
  iter_len_eq := hlen
  iter_buf_length := hlen
  offset_le := Nat.le_of_eq hlen
  calls_eq := rfl
  le_calls := Nat.le_refl _
  taken := List.drop_length

/-- What was taken and the first `k` blocks begin alike. -/
theorem Playing.comparable (hr : Playing ex cb 0 resamp x y) (k : Nat) :
    x <+: (cb.blocks k).flatten ∨ (cb.blocks k).flatten <+: x := by
  have hx : x <+: (cb.blocks resamp.calls.length).flatten := by
    rw [← hr.calls_eq]
    exact ⟨_, hr.taken⟩
  rcases Nat.le_total resamp.calls.length k with hle | hle
  · exact .inl (hx.trans (cb.blocks_mono hle).flatten)
  · exact List.prefix_or_prefix_of_prefix hx (cb.blocks_mono hle).flatten

/-- What calls with `bufs` lead to from `Playing ex cb n _ _ y`. -/
def PlayedAll (ex : AudioResampleEx σ) (cb : IterCallback iter_len) (n : Nat) (y : List UInt8) (bufs : List (List UInt8))
    (result : List (Int × List UInt8) × Option (AppResample σ)) : Prop :=
  (∀ k, cb.ret k = 0) → ∃ (outs : List (List UInt8)) (resamp : AppResample σ) (x : List UInt8),
    result = (outs.map fun out => (0, out), some resamp) ∧ outs.map List.length = bufs.map List.length ∧
    Playing ex cb n resamp x (y ++ outs.flatten)

/-- No assertion fires, whatever the callback answers. -/
theorem playback_holds (fuel : Nat) (h : Resamples ex R) (hr : Playing ex cb n resamp x y) (bufs : List (List UInt8)) :
    (runs (appPlaybackResampleRun ex cb fuel) (some resamp) bufs).Holds (PlayedAll ex cb n y bufs) := by
  induction bufs generalizing resamp n x y with
  | nil =>
    refine .returns fun _ => ⟨[], resamp, x, rfl, rfl, ?_⟩
    rw [List.flatten_nil, List.append_nil]
    exact hr
  | cons buf bufs ih =>
    refine (appPlaybackResampleRun_holds fuel buf h hr).bind fun result hresult => ?_
    obtain ⟨m, resamp₁, x₁, y₁, hresamp, hplaying, hok⟩ := hresult
    rw [hresamp]
    refine (ih hplaying).bind fun rest hrest => .returns fun hcb => ?_
    obtain ⟨hzero, rfl, rfl, hlen⟩ := hok hcb
    obtain ⟨outs, resamp', x', rfl, hlens, hr'⟩ := hrest hcb
    refine ⟨result.buf :: outs, resamp', x', ?_, ?_, ?_⟩
    · rw [hzero, List.map_cons]
    · rw [List.map_cons, List.map_cons, hlens, hlen]
    · rw [List.flatten_cons, ← List.append_assoc]
      exact hr'

/-- With blocks enough for the buffers, the calls return. -/
theorem playback_returns (h : Resamples ex R) (hcb : ∀ k, cb.ret k = 0) (hr : Playing ex cb 0 resamp x y)
    (bufs : List (List UInt8)) (hk : y.length + bufs.flatten.length ≤ (R (cb.blocks k).flatten).length) (hfuel : k < fuel) :
    ∃ result, runs (appPlaybackResampleRun ex cb fuel) (some resamp) bufs = .returns result := by
  induction bufs generalizing resamp x y with
  | nil => exact ⟨_, rfl⟩
  | cons buf bufs ih =>
    rw [List.flatten_cons, List.length_append] at hk
    obtain ⟨result, hret⟩ := appPlaybackResampleRun_returns buf h hcb hr (by omega) hfuel
    have hplayed := appPlaybackResampleRun_holds fuel buf h hr
    rw [hret] at hplayed
    obtain ⟨m, resamp₁, x₁, y₁, hresamp, hplaying, hok⟩ := hplayed.of_returns
    obtain ⟨_, rfl, rfl, hlen⟩ := hok hcb
    obtain ⟨rest, hruns⟩ := ih hplaying (by rw [List.length_append]; omega)
    rw [runs, hret, Outcome.bind, hresamp, hruns]
    exact ⟨_, rfl⟩

end Playback

/-! ## Capture -/

section Capture

variable {ex} {R : List UInt8 → List UInt8} {ret : Nat → Int} {resamp : AppResample σ} {n fuel : Nat} {x y z buf : List UInt8}

/-- Where the next output goes in `iter_buf`. -/
def AppResample.start (resamp : AppResample σ) : Nat := if resamp.offset < resamp.iter_len then resamp.offset else 0

/-- Since the call with the number `n`, the resampler took `x` and put out `y`, and this is what
the callback was given and what `iter_buf` holds in front of `offset`. -/
structure Capturing (ex : AudioResampleEx σ) (n : Nat) (resamp : AppResample σ) (x y : List UInt8) : Prop where
  total : Total ex.run ex.opened resamp.id x y
  iter_buf_length : resamp.iter_buf.length = resamp.iter_len
  offset_le : resamp.offset ≤ resamp.iter_len
  length_calls : ∀ block ∈ resamp.calls, block.length = resamp.iter_len
  le_calls : n ≤ resamp.calls.length
  output : y = (resamp.calls.drop n).flatten ++ resamp.iter_buf.take resamp.start

/-- The state behind a call of `audio_resample_ex_run`, -/
def ran (ex : AudioResampleEx σ) (resamp : AppResample σ) (buf : List UInt8) : AppResample σ :=
  let io := ex.run resamp.id buf (resamp.iter_len - resamp.start)
  { resamp with id := io.state, iter_buf := resamp.written resamp.start io.out, offset := resamp.start + io.out.length }

/-- and of the callback if `iter_buf` is full. -/
def captured (ex : AudioResampleEx σ) (resamp : AppResample σ) (buf : List UInt8) : AppResample σ :=
  if (ran ex resamp buf).offset = resamp.iter_len then (ran ex resamp buf).called else ran ex resamp buf

theorem AppResample.start_le (resamp : AppResample σ) : resamp.start ≤ resamp.iter_len := by
  rw [AppResample.start]
  split
  · exact Nat.le_of_lt ‹_›
  · exact Nat.zero_le _

theorem AppResample.start_of_full (h : resamp.offset = resamp.iter_len) : resamp.start = 0 := by
  rw [AppResample.start, if_neg (by omega)]

theorem Capturing.reset (hflush : ∀ s, ex.flush s = ex.opened) (hr : Capturing ex n resamp x y) :
    Capturing ex resamp.calls.length (appResampleReset ex resamp) [] [] where
  total := by
    rw [appResampleReset, hflush]
    exact .start
  iter_buf_length := hr.iter_buf_length
  offset_le := Nat.le_refl _
  length_calls := hr.length_calls
  le_calls := Nat.le_refl _
  output := by
    simp only [appResampleReset, AppResample.start, Nat.lt_irrefl, if_false, List.drop_length, List.flatten_nil, List.take_zero,
      List.append_nil]

theorem length_written {offset : Nat} {out : List UInt8} (hend : offset + out.length ≤ resamp.iter_buf.length) :
    (resamp.written offset out).length = resamp.iter_buf.length := by
  simp only [AppResample.written, List.length_append, List.length_take, List.length_drop]
  omega

theorem take_written {offset : Nat} {out : List UInt8} (hend : offset + out.length ≤ resamp.iter_buf.length) :
    (resamp.written offset out).take (offset + out.length) = resamp.iter_buf.take offset ++ out := by
  rw [AppResample.written, List.take_append_of_le_length, List.take_of_length_le]
  all_goals
    simp only [List.length_append, List.length_take]
    omega

theorem Capturing.captured (h : Resamples ex R) (hr : Capturing ex n resamp x y) (buf : List UInt8) :
    let io := ex.run resamp.id buf (resamp.iter_len - resamp.start)
    Capturing ex n (captured ex resamp buf) (x ++ buf.take io.taken) (y ++ io.out) := by
  intro io
  have hstart := resamp.start_le
  have hroom : io.out.length ≤ resamp.iter_len - resamp.start := h.out_le hr.total buf _
  have hend : resamp.start + io.out.length ≤ resamp.iter_buf.length := by
    rw [hr.iter_buf_length]
    omega
  have htake := take_written hend
  have hlen := (length_written hend).trans hr.iter_buf_length
  have htotal : Total ex.run ex.opened io.state (x ++ buf.take io.taken) (y ++ io.out) := .call hr.total buf _
  rw [Resample.captured]
  by_cases hfull : (ran ex resamp buf).offset = resamp.iter_len
  · -- the block goes to the callback
    have hzero : (ran ex resamp buf).called.start = 0 := AppResample.start_of_full hfull
    rw [if_pos hfull]
    have hblock : (ran ex resamp buf).iter_buf.take resamp.iter_len = resamp.iter_buf.take resamp.start ++ io.out := by
      rw [← hfull]
      exact htake
    refine ⟨htotal, hlen, Nat.le_of_eq hfull, ?_, ?_, ?_⟩
    · intro block hmem
      rcases List.mem_append.mp hmem with hold | hnew
      · exact hr.length_calls block hold
      · rw [List.mem_singleton.mp hnew]
        exact List.length_take_of_le (Nat.le_of_eq hlen.symm)
    · simp only [AppResample.called, List.length_append]
      exact Nat.le_add_right_of_le hr.le_calls
    · rw [hzero, List.take_zero, List.append_nil]
      change y ++ io.out = ((resamp.calls ++ [(ran ex resamp buf).iter_buf.take resamp.iter_len]).drop n).flatten
      rw [hblock, List.drop_append_of_le_length hr.le_calls, List.flatten_append, List.flatten_singleton, hr.output,
        List.append_assoc]
  · rw [if_neg hfull]
    have hless : (ran ex resamp buf).offset < resamp.iter_len := by
      change resamp.start + io.out.length < resamp.iter_len
      change ¬resamp.start + io.out.length = resamp.iter_len at hfull
      omega
    have hstart : (ran ex resamp buf).start = resamp.start + io.out.length := if_pos hless
    refine ⟨htotal, hlen, Nat.le_of_lt hless, hr.length_calls, hr.le_calls, ?_⟩
    rw [hstart]
    change y ++ io.out = (resamp.calls.drop n).flatten ++ (resamp.written resamp.start io.out).take (resamp.start + io.out.length)
    rw [htake, hr.output, List.append_assoc]

/-- A turn: the resampler, the callback if `iter_buf` is full, and the loop on what is left of the buffer. -/
def captureTurn (ex : AudioResampleEx σ) (ret : Nat → Int) (fuel : Nat) (resamp : AppResample σ) (buf : List UInt8) :
    Outcome (Result σ) :=
  let taken := (ex.run resamp.id buf (resamp.iter_len - resamp.start)).taken
  if (ran ex resamp buf).offset = resamp.iter_len ∧ ret resamp.calls.length ≠ 0 then
    (errExit ex (captured ex resamp buf) (buf.drop taken)).behind (buf.take taken)
  else (captureLoop ex ret fuel (captured ex resamp buf) (buf.drop taken)).behind (buf.take taken)

/-- The block is full or the buffer is used up. -/
theorem Capturing.full_or_taken (h : Resamples ex R) (hr : Capturing ex n resamp x y) (buf : List UInt8) :
    (ran ex resamp buf).offset = resamp.iter_len ∨
      (buf.drop (ex.run resamp.id buf (resamp.iter_len - resamp.start)).taken).length = 0 := by
  rcases h.all_or_full hr.total buf (resamp.iter_len - resamp.start) with htaken | hfull
  · right
    rw [htaken, List.length_drop, Nat.sub_self]
  · left
    rw [ran, hfull]
    exact Nat.add_sub_cancel' resamp.start_le

theorem captureLoop_step (h : Resamples ex R) (hr : Capturing ex n resamp x y) (hoff : resamp.offset = resamp.iter_len)
    (hbuf : buf.length ≠ 0) : captureLoop ex ret (fuel + 1) resamp buf = captureTurn ex ret fuel resamp buf := by
  have hstart := AppResample.start_of_full hoff
  have htaken := h.taken_le hr.total buf (resamp.iter_len - resamp.start)
  have hout := h.out_le hr.total buf (resamp.iter_len - resamp.start)
  have hgoes := h.goesOn hr.total buf (resamp.iter_len - resamp.start)
  have hfull := hr.full_or_taken h buf
  rw [captureLoop, if_neg hbuf]
  simp only [ran, captured, captureTurn, hstart, Nat.sub_zero, Nat.zero_add] at htaken hout hgoes hfull ⊢
  simp only [hgoes, htaken, hout, Bool.not_true, Bool.false_eq_true, if_false, not_true]
  by_cases hall : (ex.run resamp.id buf resamp.iter_len).out.length = resamp.iter_len
  · simp only [hall, if_true, true_and, hoff]
  · simp only [hall, if_false, false_and, hfull.resolve_left hall, not_true]

theorem appCaptureResampleRun_eq (h : Resamples ex R) (hr : Capturing ex n resamp x y) :
    appCaptureResampleRun ex ret fuel (some resamp) buf =
      if resamp.offset < resamp.iter_len then captureTurn ex ret fuel resamp buf else captureLoop ex ret fuel resamp buf := by
  rw [appCaptureResampleRun]
  split
  · rename_i hoff
    have hstart : resamp.start = resamp.offset := if_pos hoff
    have hgoes := h.goesOn hr.total buf (resamp.iter_len - resamp.start)
    have hfull := hr.full_or_taken h buf
    simp only [ran, captured, captureTurn, hstart] at hgoes hfull ⊢
    simp only [hgoes, Bool.not_true, Bool.false_eq_true, if_false]
    rw [if_neg (not_not.mpr hfull.symm)]
    by_cases hall : resamp.offset + (ex.run resamp.id buf (resamp.iter_len - resamp.offset)).out.length = resamp.iter_len
    · simp only [hall, if_true, true_and]
    · simp only [hall, if_false, false_and]
  · rfl

/-- What a capture of `buf` leads to from `Capturing ex n _ x _`: the same, or, behind an
error of the callback, a fresh start. -/
def Captured (ex : AudioResampleEx σ) (ret : Nat → Int) (n iter_len : Nat) (x buf : List UInt8) (result : Result σ) : Prop :=
  ∃ m resamp x' y, result.resamp = some resamp ∧ Capturing ex m resamp x' y ∧ resamp.iter_len = iter_len ∧
    ((∀ k, ret k = 0) → result.ret = 0 ∧ m = n ∧ x' = x ++ buf ∧ result.buf = buf)

theorem Captured.behind {iter_len taken : Nat} {result : Result σ}
    (h : Captured ex ret n iter_len (x ++ buf.take taken) (buf.drop taken) result) :
    Captured ex ret n iter_len x buf { result with buf := buf.take taken ++ result.buf } := by
  obtain ⟨m, resamp, x', y, hresamp, hr, hlen, hok⟩ := h
  refine ⟨m, resamp, x', y, hresamp, hr, hlen, fun hret => ?_⟩
  obtain ⟨hzero, hm, hx, hbuf⟩ := hok hret
  refine ⟨hzero, hm, ?_, ?_⟩
  · rw [hx, List.append_assoc, List.take_append_drop]
  · rw [hbuf, List.take_append_drop]

@[simp] theorem captured_iter_len (ex : AudioResampleEx σ) (resamp : AppResample σ) (buf : List UInt8) :
    (captured ex resamp buf).iter_len = resamp.iter_len := by
  rw [captured]
  split <;> rfl

theorem captured_offset (hfull : (ran ex resamp buf).offset = resamp.iter_len) :
    (captured ex resamp buf).offset = (captured ex resamp buf).iter_len := by
  rw [captured_iter_len, captured, if_pos hfull]
  exact hfull

theorem captureLoop_nil (hbuf : buf.length = 0) : captureLoop ex ret fuel resamp buf = .returns ⟨0, buf, some resamp⟩ := by
  rw [captureLoop.eq_def, if_pos hbuf]

theorem Capturing.captured_nil (hr : Capturing ex n resamp x y) (hbuf : buf.length = 0) :
    Captured ex ret n resamp.iter_len x buf ⟨0, buf, some resamp⟩ := by
  refine ⟨n, resamp, x, y, rfl, hr, rfl, fun _ => ⟨rfl, rfl, ?_, rfl⟩⟩
  rw [List.eq_nil_of_length_eq_zero hbuf, List.append_nil]

/-- A turn keeps what the loop behind it keeps. -/
theorem captureTurn_holds (h : Resamples ex R) (hr : Capturing ex n resamp x y)
    (hloop : ∀ {resamp' : AppResample σ} {x' y' buf' : List UInt8}, Capturing ex n resamp' x' y' →
      resamp'.offset = resamp'.iter_len ∨ buf'.length = 0 →
      (captureLoop ex ret fuel resamp' buf').Holds (Captured ex ret n resamp'.iter_len x' buf')) :
    (captureTurn ex ret fuel resamp buf).Holds (Captured ex ret n resamp.iter_len x buf) := by
  have hnext := hr.captured h buf
  rw [captureTurn]
  split
  · rename_i hfail
    have hreset := hnext.reset h.flush_opened
    exact .returns ⟨_, _, [], [], rfl, hreset, captured_iter_len ex resamp buf, fun hret => absurd (hret _) hfail.2⟩
  · have hdone := hloop hnext ((hr.full_or_taken h buf).imp_left captured_offset)
    rw [captured_iter_len] at hdone
    exact hdone.behind fun result hresult => hresult.behind

theorem captureLoop_holds (h : Resamples ex R) (hr : Capturing ex n resamp x y)
    (hoff : resamp.offset = resamp.iter_len ∨ buf.length = 0) :
    (captureLoop ex ret fuel resamp buf).Holds (Captured ex ret n resamp.iter_len x buf) := by
  induction fuel generalizing resamp x y buf with
  | zero =>
    by_cases hbuf : buf.length = 0
    · rw [captureLoop_nil hbuf]
      exact .returns (hr.captured_nil hbuf)
    · rw [captureLoop, if_neg hbuf]
      exact .endless
  | succ fuel ih =>
    by_cases hbuf : buf.length = 0
    · rw [captureLoop_nil hbuf]
      exact .returns (hr.captured_nil hbuf)
    · rw [captureLoop_step h hr (hoff.resolve_right hbuf) hbuf]
      exact captureTurn_holds h hr ih

theorem appCaptureResampleRun_holds (ret : Nat → Int) (fuel : Nat) (buf : List UInt8) (h : Resamples ex R) (hr : Capturing ex n resamp x y) :
    (appCaptureResampleRun ex ret fuel (some resamp) buf).Holds (Captured ex ret n resamp.iter_len x buf) := by
  rw [appCaptureResampleRun_eq h hr]
  split
  · exact captureTurn_holds h hr fun hr' hoff' => captureLoop_holds h hr' hoff'
  · have := hr.offset_le
    exact captureLoop_holds h hr (.inl (by omega))

/-- While blocks are left to be filled, a turn ends if the loop behind it does. -/
theorem captureTurn_returns (h : Resamples ex R) (hret : ∀ k, ret k = 0) (hr : Capturing ex n resamp x y)
    (hloop : ∀ {resamp' : AppResample σ} {x' y' buf' : List UInt8}, Capturing ex n resamp' x' y' →
      resamp'.iter_len = resamp.iter_len → x' ++ buf' = x ++ buf →
      (resamp'.offset = resamp'.iter_len ∧ y'.length + resamp.start = y.length + resamp.iter_len) ∨ buf'.length = 0 →
      ∃ result, captureLoop ex ret fuel resamp' buf' = .returns result) :
    ∃ result, captureTurn ex ret fuel resamp buf = .returns result := by
  have hstart := resamp.start_le
  rw [captureTurn, if_neg fun hfail => hfail.2 (hret _)]
  apply Outcome.behind_returns
  refine hloop (hr.captured h buf) (captured_iter_len ex resamp buf) ?_ ?_
  · rw [List.append_assoc, List.take_append_drop]
  · refine (hr.full_or_taken h buf).imp_left fun hfull => ⟨captured_offset hfull, ?_⟩
    change resamp.start + (ex.run resamp.id buf (resamp.iter_len - resamp.start)).out.length = resamp.iter_len at hfull
    rw [List.length_append]
    omega

/-- Every turn but the last fills a block, and the resampler puts out no more than `R` gives. -/
theorem captureLoop_returns (h : Resamples ex R) (hret : ∀ k, ret k = 0) (hr : Capturing ex n resamp x y)
    (hpos : 0 < resamp.iter_len) (hoff : resamp.offset = resamp.iter_len ∨ buf.length = 0)
    (hfuel : (R (x ++ buf)).length - y.length < fuel) : ∃ result, captureLoop ex ret fuel resamp buf = .returns result := by
  induction fuel generalizing resamp x y buf with
  | zero => omega
  | succ fuel ih =>
    by_cases hbuf : buf.length = 0
    · exact ⟨_, captureLoop_nil hbuf⟩
    have hoff := hoff.resolve_right hbuf
    rw [captureLoop_step h hr hoff hbuf]
    refine captureTurn_returns h hret hr fun {resamp' x' y' buf'} hr' hlen' hx' hnext => ?_
    rcases hnext with ⟨hfull', hy'⟩ | hnil
    · have hle := (h.output_of_begins hr'.total (List.prefix_append x' buf')).length_le
      rw [hx'] at hle
      rw [AppResample.start_of_full hoff] at hy'
      refine ih hr' (by omega) (.inl hfull') ?_
      rw [hx']
      omega
    · exact ⟨_, captureLoop_nil hnil⟩

theorem appCaptureResampleRun_returns (buf : List UInt8) (h : Resamples ex R) (hret : ∀ k, ret k = 0) (hr : Capturing ex n resamp x y)
    (hpos : 0 < resamp.iter_len) (hfuel : (R (x ++ buf)).length < fuel) :
    ∃ result, appCaptureResampleRun ex ret fuel (some resamp) buf = .returns result := by
  rw [appCaptureResampleRun_eq h hr]
  split
  · refine captureTurn_returns h hret hr fun {resamp' x' y' buf'} hr' hlen' hx' hnext => ?_
    refine captureLoop_returns h hret hr' (by omega) (hnext.imp_left And.left) ?_
    rw [hx']
    omega
  · have := hr.offset_le
    exact captureLoop_returns h hret hr hpos (.inl (by omega)) (by omega)

theorem capturing_opened (ex : AudioResampleEx σ) (iter_buf : List UInt8) :
    Capturing ex 0 (appResampleOpen ex iter_buf) [] [] where
  total := .start
  iter_buf_length := rfl
  offset_le := Nat.le_refl _
  length_calls := by
    intro block hblock
    exact absurd hblock List.not_mem_nil
  le_calls := Nat.le_refl _
  output := by rw [AppResample.start_of_full rfl]; rfl

/-- What calls with `bufs` lead to from `Capturing ex n _ x _`. -/
def CapturedAll (ex : AudioResampleEx σ) (ret : Nat → Int) (n iter_len : Nat) (x : List UInt8) (bufs : List (List UInt8))
    (result : List (Int × List UInt8) × Option (AppResample σ)) : Prop :=
  (∀ k, ret k = 0) → ∃ (resamp : AppResample σ) (y : List UInt8),
    result = (bufs.map fun buf => (0, buf), some resamp) ∧ resamp.iter_len = iter_len ∧ Capturing ex n resamp (x ++ bufs.flatten) y

/-- No assertion fires, whatever the callback answers. -/
theorem capture_holds (ret : Nat → Int) (fuel : Nat) (h : Resamples ex R) (hr : Capturing ex n resamp x y) (bufs : List (List UInt8)) :
    (runs (appCaptureResampleRun ex ret fuel) (some resamp) bufs).Holds (CapturedAll ex ret n resamp.iter_len x bufs) := by
  induction bufs generalizing resamp n x y with
  | nil =>
    refine .returns fun _ => ⟨resamp, y, rfl, rfl, ?_⟩
    rw [List.flatten_nil, List.append_nil]
    exact hr
  | cons buf bufs ih =>
    refine (appCaptureResampleRun_holds ret fuel buf h hr).bind fun result hresult => ?_
    obtain ⟨m, resamp₁, x₁, y₁, hresamp, hcapturing, hlen, hok⟩ := hresult
    rw [hresamp]
    refine (ih hcapturing).bind fun rest hrest => .returns fun hret => ?_
    obtain ⟨hzero, rfl, rfl, hbuf⟩ := hok hret
    obtain ⟨resamp', y', rfl, hlen', hr'⟩ := hrest hret
    refine ⟨resamp', y', ?_, hlen'.trans hlen, ?_⟩
    · rw [hzero, hbuf, List.map_cons]
    · rw [List.flatten_cons, ← List.append_assoc]
      exact hr'

/-- With blocks of at least a byte, the calls return. -/
theorem capture_returns (h : Resamples ex R) (hret : ∀ k, ret k = 0) (hr : Capturing ex n resamp x y)
    (hpos : 0 < resamp.iter_len) (bufs : List (List UInt8)) (hfuel : (R (x ++ bufs.flatten)).length < fuel) :
    ∃ result, runs (appCaptureResampleRun ex ret fuel) (some resamp) bufs = .returns result := by
  induction bufs generalizing resamp x y with
  | nil => exact ⟨_, rfl⟩
  | cons buf bufs ih =>
    rw [List.flatten_cons, ← List.append_assoc] at hfuel
    have hle := (h.mono (List.prefix_append (x ++ buf) bufs.flatten)).length_le
    obtain ⟨result, hreturns⟩ := appCaptureResampleRun_returns buf h hret hr hpos (Nat.lt_of_le_of_lt hle hfuel)
    have hcaptured := appCaptureResampleRun_holds ret fuel buf h hr
    rw [hreturns] at hcaptured
    obtain ⟨m, resamp₁, x₁, y₁, hresamp, hcapturing, hlen, hok⟩ := hcaptured.of_returns
    obtain ⟨_, rfl, rfl, _⟩ := hok hret
    obtain ⟨rest, hruns⟩ := ih hcapturing (by omega) hfuel
    rw [runs, hreturns, Outcome.bind, hresamp, hruns]
    exact ⟨_, rfl⟩

end Capture

/-! ## The driver -/

/-- The buffers came back full, with a beginning of what the blocks are resampled to. -/
def PlaysBlocks {iter_len : Nat} (R : List UInt8 → List UInt8) (cb : IterCallback iter_len) (bufs : List (List UInt8))
    (result : List (Int × List UInt8) × Option (AppResample σ)) : Prop :=
  ∃ outs : List (List UInt8), result.1 = outs.map (fun out => (0, out)) ∧ outs.map List.length = bufs.map List.length ∧
    ∀ k, bufs.flatten.length ≤ (R (cb.blocks k).flatten).length →
      outs.flatten = (R (cb.blocks k).flatten).take bufs.flatten.length

/-- The buffers were taken in full, and what the resampler put out for them are the blocks
that the callback was given and less than one more. -/
def PassesBlocks (R : List UInt8 → List UInt8) (iter_len : Nat) (bufs : List (List UInt8))
    (result : List (Int × List UInt8) × Option (AppResample σ)) : Prop :=
  ∃ (resamp : AppResample σ) (rest : List UInt8), result = (bufs.map (fun buf => (0, buf)), some resamp) ∧
    (∀ block ∈ resamp.calls, block.length = iter_len) ∧ resamp.calls.flatten <+: R bufs.flatten ∧ rest.length ≤ iter_len - 1 ∧
    Total ex.run ex.opened resamp.id bufs.flatten (resamp.calls.flatten ++ rest)

/-- Calls of `app_playback_resample_run` behind `app_resample_open`. -/
def playback (iter_buf : List UInt8) (cb : IterCallback iter_buf.length) (fuel : Nat) (bufs : List (List UInt8)) :
    Outcome (List (Int × List UInt8) × Option (AppResample σ)) :=
  runs (appPlaybackResampleRun ex cb fuel) (some (appResampleOpen ex iter_buf)) bufs

/-- Calls of `app_capture_resample_run` behind `app_resample_open`. -/
def capture (iter_buf : List UInt8) (ret : Nat → Int) (fuel : Nat) (bufs : List (List UInt8)) :
    Outcome (List (Int × List UInt8) × Option (AppResample σ)) :=
  runs (appCaptureResampleRun ex ret fuel) (some (appResampleOpen ex iter_buf)) bufs

/-- With a resampler that is a stream transducer, no assertion fires for any buffers and any
answers of the callbacks. While the callbacks return 0, the playback fills the buffers
with what its blocks are resampled to, however the buffers are cut, and a capture passes
on in blocks what its buffers are resampled to. A playback ends when the blocks give
enough, a capture whenever its blocks are not empty. -/
theorem resampler_streams {R : List UInt8 → List UInt8} (h : Resamples ex R) (iter_buf : List UInt8) :
    (∀ (cb : IterCallback iter_buf.length) (bufs : List (List UInt8)) (fuel : Nat), playback ex iter_buf cb fuel bufs ≠ .asserts ∧
      ((∀ k, cb.ret k = 0) → (playback ex iter_buf cb fuel bufs).Holds (PlaysBlocks R cb bufs) ∧
        ∀ k, bufs.flatten.length ≤ (R (cb.blocks k).flatten).length → k < fuel →
          ∃ result, playback ex iter_buf cb fuel bufs = .returns result)) ∧
    ∀ (ret : Nat → Int) (bufs : List (List UInt8)) (fuel : Nat), capture ex iter_buf ret fuel bufs ≠ .asserts ∧
      ((∀ k, ret k = 0) → (capture ex iter_buf ret fuel bufs).Holds (PassesBlocks ex R iter_buf.length bufs) ∧
        (0 < iter_buf.length → (R bufs.flatten).length < fuel → ∃ result, capture ex iter_buf ret fuel bufs = .returns result)) := by
  constructor
  · intro cb bufs fuel
    have hr := playing_opened ex cb (rfl : iter_buf.length = iter_buf.length)
    have hholds := playback_holds fuel h hr bufs
    refine ⟨hholds.ne_asserts, fun hcb => ⟨?_, ?_⟩⟩
    · refine hholds.mono fun result hresult => ?_
      obtain ⟨outs, resamp, x, rfl, hlens, hplaying⟩ := hresult hcb
      refine ⟨outs, rfl, hlens, fun k hk => ?_⟩
      have hlen : outs.flatten.length = bufs.flatten.length := by
        rw [List.length_flatten, hlens, ← List.length_flatten]
      exact h.output_eq_take hplaying.total (hplaying.comparable k) hlen hk
    · intro k hk hfuel
      refine playback_returns h hcb hr bufs ?_ hfuel
      rw [List.length_nil, Nat.zero_add]
      exact hk
  · intro ret bufs fuel
    have hr := capturing_opened ex iter_buf
    have hholds := capture_holds ret fuel h hr bufs
    refine ⟨hholds.ne_asserts, fun hret => ⟨?_, fun hpos hfuel => capture_returns h hret hr hpos bufs hfuel⟩⟩
    refine hholds.mono fun result hresult => ?_
    obtain ⟨resamp, y, rfl, hlen, hcapturing⟩ := hresult hret
    have hlen : resamp.iter_len = iter_buf.length := hlen
    have htotal := hcapturing.total
    rw [hcapturing.output, List.drop_zero, List.nil_append] at htotal
    refine ⟨resamp, resamp.iter_buf.take resamp.start, rfl, ?_, ?_, ?_, htotal⟩
    · rw [← hlen]
      exact hcapturing.length_calls
    · exact (List.prefix_append _ _).trans (h.output htotal)
    · rw [List.length_take, AppResample.start]
      split <;> omega

/-- A resampler of the ratio 1. -/
def copying : AudioResampleEx Unit :=
  { opened := ()
    run := fun _ inp room => ⟨(), min inp.length room, inp.take room⟩
    status := fun _ inp room => if inp.length < room then .inEmpty else .outFull
    flush := id }

theorem copying_total {x y : List UInt8} {s : Unit} (h : Total copying.run copying.opened s x y) : y = x := by
  induction h with
  | start => rfl
  | call _ inp room ih =>
    rw [ih]
    simp only [copying, List.take_eq_take_min (i := room), Nat.min_comm]

theorem copying_resamples : Resamples copying id where
  mono := id
  taken_le := fun _ inp room => Nat.min_le_left _ _
  out_le := fun _ inp room => List.length_take_le _ _
  all_or_full := by
    intro s x y _ inp room
    simp only [copying, List.length_take]
    omega
  output := fun h => copying_total h ▸ List.prefix_rfl
  output_all := by
    intro s x y h inp room hroom
    simp only [copying, List.length_take] at hroom ⊢
    rw [copying_total h, List.take_of_length_le (by omega)]
    rfl
  goesOn := by
    intro s x y _ inp room
    simp only [copying]
    split <;> rfl
  flush_opened := fun _ => rfl

/-- Blocks of two bytes. -/
def countedBlocks : IterCallback 2 :=
  { block := fun k => [UInt8.ofNat (2 * k), UInt8.ofNat (2 * k + 1)]
    length_block := fun _ => rfl
    ret := fun _ => 0 }

/-- Calls that end inside a block, at its end and between two. -/
theorem resampler_streams_copying :
    ((playback copying [0, 0] countedBlocks 4 [[9], [9, 9, 9], [], [9, 9]]).Holds
        (PlaysBlocks id countedBlocks [[9], [9, 9, 9], [], [9, 9]]) ∧
      ∃ result, playback copying [0, 0] countedBlocks 4 [[9], [9, 9, 9], [], [9, 9]] = .returns result) ∧
    (capture copying [0, 0] (fun _ => 0) 6 [[1], [2, 3, 4], [5]]).Holds (PassesBlocks copying id 2 [[1], [2, 3, 4], [5]]) ∧
      ∃ result, capture copying [0, 0] (fun _ => 0) 6 [[1], [2, 3, 4], [5]] = .returns result := by
  obtain ⟨hplayback, hcapture⟩ := resampler_streams copying copying_resamples [0, 0]
  constructor
  · obtain ⟨_, hplays⟩ := hplayback countedBlocks [[9], [9, 9, 9], [], [9, 9]] 4
    obtain ⟨hholds, hreturns⟩ := hplays fun _ => rfl
    exact ⟨hholds, hreturns 3 (by decide) (by decide)⟩
  · obtain ⟨_, hpasses⟩ := hcapture (fun _ => 0) [[1], [2, 3, 4], [5]] 6
    obtain ⟨hholds, hreturns⟩ := hpasses fun _ => rfl
    exact ⟨hholds, hreturns (by decide) (by decide)⟩

end BtApp.Resample
