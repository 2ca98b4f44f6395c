import Mathlib.Logic.Function.Basic
import Mathlib.Tactic.Common
/-!
# Mono frames in a stereo buffer

`a2dp_audio_sbc_decode_frame` of `apps/audioplayers/a2dp_decoder/a2dp_decoder_sbc.cpp`
decodes a mono stream into the first half of its buffer and then doubles every
sample in place, from the last one down.
-/
open Function

namespace A2dp.Mono

/-! ## The code -/

/-- The memory around the buffer in samples, index 0 being its first one, and
the indices that were read and written. -/
structure Samples where
  mem : Int → Int16
  reads : List Int
  writes : List Int

/-- `*dest = *src`. -/
def Samples.copy (s : Samples) (dest src : Int) : Samples :=
  ⟨update s.mem dest (s.mem src), s.reads ++ [src], s.writes ++ [dest]⟩

/-- What the loop does in a round. -/
def Samples.double (s : Samples) (dest src : Int) : Samples := (s.copy dest src).copy (dest - 1) src

/-- `for (; i>=0; i--)`, for the rounds that are left. -/
def expandLoop : Nat → Int → Int → Samples → Samples
  | 0, _, _, s => s
  | rounds + 1, dest, src, s => expandLoop rounds (dest - 2) (src - 1) (s.double dest src)

/-- The expansion in `a2dp_audio_sbc_decode_frame`, on what the decoder has left
in the first half of the buffer. -/
def expand (mem : Int → Int16) (buffer_bytes : Nat) : Samples :=
  let i := buffer_bytes / 2
  expandLoop (i / 2 + 1) (i - 1) ((i / 2 : Nat) - 1) ⟨mem, [], []⟩

/-! ## What it should do -/

/-- The first `2 * n` samples are the first `n` ones, each twice. -/
def Doubled (n : Nat) (mem mem' : Int → Int16) : Prop :=
  ∀ k : Nat, k < n → mem' (2 * k) = mem k ∧ mem' (2 * k + 1) = mem k

/-- Every index is one of the buffer. -/
def Inside (n : Nat) (s : Samples) : Prop := ∀ j ∈ s.reads ++ s.writes, 0 ≤ j ∧ j < 2 * n

/-! ## What it does -/

theorem double_mem (s : Samples) (n : Nat) (j : Int) : (s.double (2 * n + 1) n).mem j =
    if j = 2 * n ∨ j = 2 * n + 1 then s.mem n else s.mem j := by
  -- the second copy reads sample `n` again, which the first one has not changed
  have hsrc : update s.mem (2 * (n : Int) + 1) (s.mem n) n = s.mem n := update_of_ne (by omega) _ _
  have hlow : (2 * (n : Int) + 1 - 1) = 2 * n := Int.add_sub_cancel _ _
  simp only [Samples.double, Samples.copy, hsrc, hlow, update_apply]
  split_ifs <;> first | rfl | omega

/-- The round that is one too many. -/
theorem double_below (s : Samples) (j : Int) :
    (s.double (-1) (-1)).mem j = if j = -2 then s.mem (-1) else s.mem j := by
  simp only [Samples.double, Samples.copy, update_apply]
  split_ifs <;> simp_all

/-- From the last sample down: what is still to be read lies below what was written. -/
theorem expandLoop_mem (n : Nat) (s : Samples) :
    let mem' := (expandLoop (n + 1) (2 * n - 1) (n - 1) s).mem
    Doubled n s.mem mem' ∧ (∀ j : Int, 2 * n ≤ j → mem' j = s.mem j) ∧
      ∀ j : Int, j < 0 → mem' j = if j = -2 then s.mem (-1) else s.mem j := by
  induction n generalizing s with
  | zero =>
    refine ⟨fun k hk => absurd hk (Nat.not_lt_zero k), fun j hj => ?_, fun j _ => double_below s j⟩
    exact (double_below s j).trans (if_neg (by omega))
  | succ n ih =>
    rw [expandLoop]
    simp only [show (2 * ((n + 1 : Nat) : Int) - 1) = 2 * n + 1 by omega,
      show (((n + 1 : Nat) : Int) - 1) = n by omega, show (2 * (n : Int) + 1 - 2) = 2 * n - 1 by omega]
    obtain ⟨hdoubled, habove, hbelow⟩ := ih (s.double (2 * n + 1) n)
    have hmem := double_mem s n
    refine ⟨fun k hk => ?_, fun j hj => ?_, fun j hj => ?_⟩
    · rcases Nat.lt_succ_iff_lt_or_eq.1 hk with hlt | rfl
      · -- sample `k` has not been written over yet
        obtain ⟨heven, hodd⟩ := hdoubled k hlt
        rw [heven, hodd, hmem, if_neg (by omega)]
        exact ⟨rfl, rfl⟩
      · rw [habove _ (by omega), habove _ (by omega), hmem, hmem, if_pos (.inl rfl), if_pos (.inr rfl)]
        exact ⟨rfl, rfl⟩
    · rw [habove j (by omega), hmem, if_neg (by omega)]
    · have hkept : ∀ i : Int, i < 0 → (s.double (2 * n + 1) n).mem i = s.mem i :=
        fun i hi => (hmem i).trans (if_neg (by omega))
      rw [hbelow j hj, hkept (-1) (by omega), hkept j hj]

/-- The last round reads below the buffer. -/
theorem reads_below (n : Nat) (s : Samples) : -1 ∈ (expandLoop (n + 1) (2 * n - 1) (n - 1) s).reads := by
  induction n generalizing s with
  | zero => simp [expandLoop, Samples.double, Samples.copy]
  | succ n ih =>
    rw [expandLoop, show (2 * ((n + 1 : Nat) : Int) - 1 - 2) = 2 * n - 1 by omega,
      show (((n + 1 : Nat) : Int) - 1 - 1) = n - 1 by omega]
    exact ih _

theorem expand_eq (mem : Int → Int16) (n : Nat) :
    expand mem (4 * n) = expandLoop (n + 1) (2 * n - 1) (n - 1) ⟨mem, [], []⟩ := by
  rw [expand, show 4 * n / 2 = 2 * n by omega, show 2 * n / 2 = n by omega]
  rfl

/-- The samples of the buffer are right, but for no buffer does the expansion
stay inside: it reads the sample in front and writes the two in front. -/
theorem expand_reaches_below (n : Nat) (mem : Int → Int16) :
    ¬ (Doubled n mem (expand mem (4 * n)).mem ∧ Inside n (expand mem (4 * n))) ∧
      Doubled n mem (expand mem (4 * n)).mem ∧
      ∀ j : Int, 2 * n ≤ j ∨ j < 0 → (expand mem (4 * n)).mem j = if j = -2 then mem (-1) else mem j := by
  rw [expand_eq]
  obtain ⟨hdoubled, habove, hbelow⟩ := expandLoop_mem n ⟨mem, [], []⟩
  refine ⟨fun ⟨_, hinside⟩ => ?_, hdoubled, ?_⟩
  · have hread := (hinside (-1) (List.mem_append_left _ (reads_below n _))).1
    omega
  · rintro j (hj | hj)
    · rw [habove j hj, if_neg (by omega)]
    · exact hbelow j hj

/-- Two samples behind memory that is not theirs: the sample two below them changes. -/
theorem expand_one :
    ¬ (Doubled 1 (fun j => if j = -1 then 7 else 0) (expand (fun j => if j = -1 then 7 else 0) 4).mem ∧
      Inside 1 (expand (fun j => if j = -1 then 7 else 0) 4)) ∧
    (expand (fun j => if j = -1 then 7 else 0) 4).mem (-2) = 7 := by
  refine ⟨fun ⟨_, h⟩ => ?_, by decide⟩
  exact absurd (h (-1) (by decide)).1 (by decide)

end A2dp.Mono
