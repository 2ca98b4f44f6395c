import Mathlib.Logic.Function.Basic
import Mathlib.Tactic.Common
/-!
# One software channel and two hardware channels

`audio_process_run` of `services/audio_process/audio_process.c` compacts a stereo
buffer to its left channel in place, runs the processing stages, and expands the
channel in place to both again. The loops are written once for each sample width.
-/
open Function

namespace AudioProcess

/-! ## The code -/

/-- `audio_process.sample_bits` behind the assertion. -/
inductive SampleBits where
  | bits16
  | bits24
  deriving DecidableEq

/-- `sizeof(pcm_16bits_t)` and `sizeof(pcm_24bits_t)`. -/
def SampleBits.size : SampleBits → Nat
  | .bits16 => 2
  | .bits24 => 4

/-- The memory around `pcm_buf`, index 0 being its first sample, and the indices that
were read and written. -/
structure Pcm (α : Type) where
  mem : Int → α
  reads : List Int
  writes : List Int

variable {α : Type}

/-- `pcm_buf[dest] = pcm_buf[src]`. -/
def Pcm.copy (s : Pcm α) (dest src : Int) : Pcm α := ⟨update s.mem dest (s.mem src), s.reads ++ [src], s.writes ++ [dest]⟩

/-- `for (i = 0, j = 0; i < pcm_len; i += 2, j++)`. -/
def compactLoop (pcm_len i j : Nat) (s : Pcm α) : Pcm α :=
  if i < pcm_len then compactLoop pcm_len (i + 2) (j + 1) (s.copy j i) else s
termination_by pcm_len - i

/-- `for (; i >= 0; i--, j -= 2)`, with `i` one less than the argument. -/
def expandLoop : Nat → Int → Pcm α → Pcm α
  | 0, _, s => s
  | i + 1, j, s => expandLoop i (j - 2) ((s.copy (j + 1) i).copy j i)

/-- Where the loop for the sample width starts to write. -/
def SampleBits.expandStart (pcm_len : Int) : SampleBits → Int
  | .bits16 => 2 * pcm_len - 1
  | .bits24 => 2 * pcm_len - 2

/-- `audio_process_run` for `sw_ch_num` and `hw_ch_num`, with the filters and the DRCs as
`stages` on a buffer of `pcm_len` samples; `none` where an assertion fails. As `len` is a
`uint32_t`, the `int`s do not overflow. -/
def audioProcessRun (sample_bits : SampleBits) (sw_ch_num hw_ch_num : Nat) (stages : (Int → α) → Nat → Int → α)
    (mem : Int → α) (len : Nat) : Option (Pcm α) :=
  let pcm_len := len / sample_bits.size
  if sw_ch_num = hw_ch_num then some ⟨stages mem pcm_len, [], []⟩
  else if sw_ch_num = 1 ∧ hw_ch_num = 2 then
    let s := compactLoop pcm_len 0 0 ⟨mem, [], []⟩
    let pcm_len := pcm_len / 2
    let s := { s with mem := stages s.mem pcm_len }
    some (expandLoop pcm_len (sample_bits.expandStart pcm_len) s)
  else none

/-! ## What it should do -/

/-- Both samples of a frame are its left one, and every index is one of the buffer. -/
structure LeftOnBoth (frames : Nat) (mem : Int → α) (s : Pcm α) : Prop where
  left : ∀ k : Nat, k < frames → s.mem (2 * k) = mem (2 * k) ∧ s.mem (2 * k + 1) = mem (2 * k)
  inside : ∀ j ∈ s.reads ++ s.writes, 0 ≤ j ∧ j < 2 * frames

/-! ## Compaction -/

section Compact

variable {frames : Nat} {s : Pcm α}

/-- Up to `j` the left samples, and from there on what was there before. -/
def Compacted (j : Nat) (mem mem' : Int → α) : Prop :=
  (∀ k : Nat, k < j → mem' k = mem (2 * k)) ∧ ∀ k : Int, j ≤ k → mem' k = mem k

def Pcm.Inside (frames : Nat) (s : Pcm α) : Prop := ∀ j ∈ s.reads ++ s.writes, 0 ≤ j ∧ j < 2 * frames

theorem Pcm.Inside.copy (h : s.Inside frames) {dest src : Int} (hdest : 0 ≤ dest ∧ dest < 2 * frames)
    (hsrc : 0 ≤ src ∧ src < 2 * frames) : (s.copy dest src).Inside frames := by
  intro j hj
  simp only [Pcm.copy, List.mem_append, List.mem_singleton] at hj
  rcases hj with (hj | rfl) | hj | rfl
  · exact h j (List.mem_append_left _ hj)
  · exact hsrc
  · exact h j (List.mem_append_right _ hj)
  · exact hdest

theorem compactLoop_spec {mem : Int → α} (i : Nat) {j : Nat} (hj : i + j = frames) (hs : Compacted j mem s.mem)
    (hin : s.Inside frames) :
    Compacted frames mem (compactLoop (2 * frames) (2 * j) j s).mem ∧
      (compactLoop (2 * frames) (2 * j) j s).Inside frames := by
  induction i generalizing j s with
  | zero =>
    obtain rfl : j = frames := by omega
    rw [compactLoop, if_neg (Nat.lt_irrefl _)]
    exact ⟨hs, hin⟩
  | succ i ih =>
    have hnext : 2 * j + 2 = 2 * (j + 1) := by omega
    rw [compactLoop, if_pos (by omega), hnext]
    refine ih (by omega) ?_ (hin.copy (by omega) (by omega))
    obtain ⟨hlo, hhi⟩ := hs
    refine ⟨?_, ?_⟩
    · intro k hk
      by_cases hkj : k = j
      · subst hkj
        -- the sample that is read has not been overwritten
        exact (update_self ..).trans (hhi _ (by omega))
      · exact (update_of_ne (by omega) ..).trans (hlo k (by omega))
    · intro k hk
      exact (update_of_ne (by omega) ..).trans (hhi k (by omega))

end Compact

/-! ## Expansion -/

section Expand

variable {frames : Nat} {s : Pcm α} {src : Int → α}

/-- From frame `n` on both samples are those of the channel, which is still there in front. -/
def Expanded (frames n : Nat) (src mem : Int → α) : Prop :=
  (∀ k : Nat, n ≤ k → k < frames → mem (2 * k) = src k ∧ mem (2 * k + 1) = src k) ∧
    ∀ c : Int, c < 2 * n → mem c = src c

/-- A round doubles the last sample that is left. -/
theorem expand_round {n : Nat} (hs : Expanded frames (n + 1) src s.mem) :
    Expanded frames n src ((s.copy (2 * (n : Int) + 1) n).copy (2 * n) n).mem := by
  obtain ⟨hdone, hleft⟩ := hs
  -- the second copy reads sample `n` again, which the first one has not changed
  have hsample : update s.mem (2 * (n : Int) + 1) (src n) n = src n :=
    (update_of_ne (by omega) ..).trans (hleft n (by omega))
  simp only [Pcm.copy, hleft n (by omega), hsample]
  refine ⟨?_, ?_⟩
  · intro k hk hkf
    by_cases hkn : k = n
    · subst hkn
      refine ⟨update_self .., ?_⟩
      rw [update_of_ne (by omega), update_self]
    · obtain ⟨heven, hodd⟩ := hdone k (by omega) hkf
      rw [update_of_ne (by omega), update_of_ne (by omega), update_of_ne (by omega), update_of_ne (by omega)]
      exact ⟨heven, hodd⟩
  · intro c hc
    rw [update_of_ne (by omega), update_of_ne (by omega)]
    exact hleft c (by omega)

theorem expandLoop_spec {n : Nat} (hn : n ≤ frames) (hs : Expanded frames n src s.mem) (hin : s.Inside frames) :
    Expanded frames 0 src (expandLoop n (2 * n - 2) s).mem ∧ (expandLoop n (2 * n - 2) s).Inside frames := by
  induction n generalizing s with
  | zero => exact ⟨hs, hin⟩
  | succ n ih =>
    have hstart : 2 * ((n + 1 : Nat) : Int) - 2 = 2 * n := by omega
    rw [hstart, expandLoop]
    exact ih (by omega) (expand_round hs) ((hin.copy (by omega) (by omega)).copy (by omega) (by omega))

theorem expandLoop_writes (n : Nat) (j : Int) (s : Pcm α) : s.writes ⊆ (expandLoop n j s).writes := by
  induction n generalizing j s with
  | zero => exact List.Subset.refl _
  | succ n ih =>
    refine List.Subset.trans ?_ (ih (j - 2) _)
    intro k hk
    exact List.mem_append_left _ (List.mem_append_left _ hk)

end Expand

/-! ## The whole function -/

variable {stages : (Int → α) → Nat → Int → α} {bits : SampleBits}

theorem SampleBits.size_pos : 0 < bits.size := by cases bits <;> decide

theorem audioProcessRun_eq (hstages : ∀ mem n, stages mem n = mem) (frames : Nat) (mem : Int → α) :
    audioProcessRun bits 1 2 stages mem (frames * (2 * bits.size)) =
      some (expandLoop frames (bits.expandStart frames) (compactLoop (2 * frames) 0 0 ⟨mem, [], []⟩)) := by
  have hlen : frames * (2 * bits.size) / bits.size = 2 * frames := by
    rw [← Nat.mul_assoc, Nat.mul_div_cancel _ SampleBits.size_pos, Nat.mul_comm]
  have hhalf : 2 * frames / 2 = frames := by omega
  unfold audioProcessRun
  rw [if_neg (by decide), if_pos (by decide)]
  simp only [hlen, hhalf, hstages]

/-- With 24 bits, and in an empty buffer. -/
theorem run_left (hbits : bits = .bits24 ∨ frames = 0) (mem : Int → α) :
    LeftOnBoth frames mem (expandLoop frames (bits.expandStart frames) (compactLoop (2 * frames) 0 0 ⟨mem, [], []⟩)) := by
  have hinside : Pcm.Inside frames (⟨mem, [], []⟩ : Pcm α) := fun j hj => absurd hj (List.not_mem_nil)
  have hnone : Compacted 0 mem mem := ⟨fun k hk => absurd hk (Nat.not_lt_zero k), fun _ _ => rfl⟩
  obtain ⟨⟨hleft, -⟩, hin⟩ := compactLoop_spec frames (Nat.add_zero frames) (s := ⟨mem, [], []⟩) hnone hinside
  generalize compactLoop (2 * frames) (2 * 0) 0 ⟨mem, [], []⟩ = s at *
  rcases hbits with rfl | rfl
  · have hstart : Expanded frames frames s.mem s.mem := ⟨fun k hk hkf => absurd hkf (Nat.not_lt.2 hk), fun _ _ => rfl⟩
    obtain ⟨⟨hdone, -⟩, hin'⟩ := expandLoop_spec (Nat.le_refl frames) hstart hin
    refine ⟨?_, hin'⟩
    intro k hk
    rw [← hleft k hk]
    exact hdone k (Nat.zero_le k) hk
  · exact ⟨fun k hk => absurd hk (Nat.not_lt_zero k), hin⟩

/-- With 16 bits the first sample that is written lies behind the buffer. -/
theorem run_outside {frames : Nat} (hframes : 0 < frames) (mem : Int → α) (s : Pcm α) :
    ¬ LeftOnBoth frames mem (expandLoop frames (SampleBits.bits16.expandStart frames) s) := by
  obtain ⟨n, rfl⟩ : ∃ n, frames = n + 1 := ⟨frames - 1, by omega⟩
  intro h
  have hwrite : (2 * ((n + 1 : Nat) : Int) - 1) + 1 ∈
      (expandLoop (n + 1) (SampleBits.bits16.expandStart (n + 1 : Nat)) s).writes := by
    rw [expandLoop]
    apply expandLoop_writes
    exact List.mem_append_left _ (List.mem_append_right _ (List.mem_singleton_self _))
  have := (h.inside _ (List.mem_append_right _ hwrite)).2
  omega

/-- For stages that leave the samples as they are, the buffer is right with 24 bits, and
with 16 bits if and only if it is empty. -/
theorem mono_iff (hstages : ∀ mem n, stages mem n = mem) (bits : SampleBits) (frames : Nat) (mem : Int → α) :
    (∃ s, audioProcessRun bits 1 2 stages mem (frames * (2 * bits.size)) = some s ∧ LeftOnBoth frames mem s) ↔
      bits = .bits24 ∨ frames = 0 := by
  rw [audioProcessRun_eq hstages]
  constructor
  · rintro ⟨s, hs, hleft⟩
    cases hs
    cases bits with
    | bits24 => exact .inl rfl
    | bits16 =>
      by_contra hne
      exact run_outside (by omega) mem _ hleft
  · intro hbits
    exact ⟨_, rfl, run_left hbits mem⟩

/-- Two frames of 24 bits. -/
theorem mono_iff_two :
    ∃ s, audioProcessRun .bits24 1 2 (fun mem _ => mem) (fun i => i * i) 16 = some s ∧ LeftOnBoth 2 (fun i => i * i) s :=
  (mono_iff (fun _ _ => rfl) .bits24 2 fun i => i * i).2 (.inl rfl)

/-- One frame of 16 bits, `5` on the left and `7` on the right: the write behind the
buffer, and what the buffer is left with. -/
theorem mono_one_frame :
    ∃ s, audioProcessRun .bits16 1 2 (fun mem _ => mem) (fun i : Int => if i = 0 then 5 else 7) 4 = some s ∧
      s.writes = [0, 2, 1] ∧ ¬ LeftOnBoth 1 (fun i : Int => if i = 0 then 5 else 7) s := by
  refine ⟨_, audioProcessRun_eq (fun _ _ => rfl) 1 _, ?_, run_outside Nat.one_pos _ _⟩
  rw [compactLoop, if_pos (by decide), compactLoop, if_neg (by decide)]
  rfl

end AudioProcess
