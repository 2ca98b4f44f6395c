import LittleBuddy.Lib.Bytes
import LittleBuddy.NvRecord.Model
/-!
# The sanity check of a received image

How `services/ota/ota_common.cpp` looks for the key word in front of the CRC of
an image. `findKeyWord` hands out, beside its result, every index of the target
that it reads: the comparison of the last indices goes on behind the end of the
target, and `key_word_found_iff` says for which targets that does not matter.
-/
open Bytes

namespace Ota

/-! ## The code -/

/-- The inner loop of `_find_key_word`: the `index` it ends with, and the indices
of `tgtArray` it reads. -/
def compareLoop (tgtArray : Nat → UInt8) (targetIndex : Nat) : Nat → List UInt8 → Nat × List Nat
  | index, [] => (index, [])
  | index, k :: keyArray =>
    let i := (targetIndex + index) % 2 ^ 32
    if tgtArray i ≠ k then (index, [i])
    else
      let (index, reads) := compareLoop tgtArray targetIndex (index + 1) keyArray
      (index, i :: reads)

/-- The outer loop, with `left` iterations left. The index that it returns is
converted to an `int32_t`. -/
def findLoop (tgtArray : Nat → UInt8) (keyArray : List UInt8) : Nat → Nat → Int × List Nat
  | 0, _ => (-1, [])
  | left + 1, targetIndex =>
    let (index, reads) := compareLoop tgtArray targetIndex 0 keyArray
    if index = keyArray.length then (Int.bmod targetIndex (2 ^ 32), reads)
    else
      let (r, more) := findLoop tgtArray keyArray left (targetIndex + 1)
      (r, reads ++ more)

/-- `_find_key_word`. -/
def findKeyWord (tgtArray : Nat → UInt8) (tgtArrayLen : Nat) (keyArray : List UInt8) : Int × List Nat :=
  if keyArray.length > 0 ∧ tgtArrayLen ≥ keyArray.length then findLoop tgtArray keyArray tgtArrayLen 0
  else (-1, [])

/-- `_ascii2hex`. -/
def ascii2hex (asciiCode : UInt8) : UInt8 :=
  if asciiCode ≥ 48 ∧ asciiCode ≤ 57 then asciiCode - 48
  else if asciiCode ≥ 97 ∧ asciiCode ≤ 102 then asciiCode - 97 + 10
  else if asciiCode ≥ 65 ∧ asciiCode ≤ 70 then asciiCode - 65 + 10
  else 0xff

/-- The characters of a C string. -/
def cString (s : String) : List UInt8 := s.toList.map fun c => UInt8.ofNat c.toNat

def imageSanityKeyWord : List UInt8 := cString "CRC32_OF_IMAGE=0x"

def oldImageSanityKeyWord : List UInt8 := cString "CRC32_OF_IMAGE="

/-- `LEN_OF_IMAGE_TAIL_TO_FIND_SANITY_CRC`. -/
abbrev lenOfImageTail : Nat := 512

/-- `ptrOfTheLast4KImage[i]`, where `flash` starts with the image. -/
def imageTail (flash : UInt32 → UInt8) (totalImageSize : UInt32) (i : Nat) : UInt8 :=
  flash (totalImageSize - UInt32.ofNat lenOfImageTail + UInt32.ofNat i)

/-- `crc32ImageOffset`, behind the key word at `sanityCrcLocation`. -/
def crc32ImageOffset (sanityCrcLocation : Int) (totalImageSize : UInt32) (keyWord : List UInt8) : UInt32 :=
  UInt32.ofInt sanityCrcLocation + totalImageSize - UInt32.ofNat lenOfImageTail + UInt32.ofNat keyWord.length

/-- The `n` bytes of the image from `a` on. -/
def imageBytes (flash : UInt32 → UInt8) (a : UInt32) (n : Nat) : List UInt8 :=
  (List.range n).map fun i => flash (a + UInt32.ofNat i)

/-- `sanityCrc32` out of eight hexadecimal digits, -/
def hexSanityCrc (flash : UInt32 → UInt8) (offset : UInt32) : UInt32 :=
  (List.range 8).foldl
    (fun crc index => crc ||| (ascii2hex (flash (offset + UInt32.ofNat index))).toUInt32 <<< UInt32.ofNat (28 - 4 * index)) 0

/-- and as the old images have it. -/
def oldSanityCrc (flash : UInt32 → UInt8) (offset : UInt32) : UInt32 := UInt32.ofNat (ofLe (imageBytes flash offset 4))

/-- `calculatedCrc32`. -/
def calculatedCrc (flash : UInt32 → UInt8) (offset : UInt32) : UInt32 :=
  NvRecord.crc32 0 (imageBytes flash 0 offset.toNat)

/-- `_image_sanity_check`. -/
def imageSanityCheck (flash : UInt32 → UInt8) (totalImageSize : UInt32) : Bool :=
  let location := (findKeyWord (imageTail flash totalImageSize) lenOfImageTail imageSanityKeyWord).1
  if location = -1 then
    let location := (findKeyWord (imageTail flash totalImageSize) lenOfImageTail oldImageSanityKeyWord).1
    if location = -1 then false
    else
      let offset := crc32ImageOffset location totalImageSize oldImageSanityKeyWord
      oldSanityCrc flash offset == calculatedCrc flash offset
  else
    let offset := crc32ImageOffset location totalImageSize imageSanityKeyWord
    hexSanityCrc flash offset == calculatedCrc flash offset

/-! ## What a search is for -/

/-- The key word is at index `t` of the target, all of it. The empty key word,
which `_find_key_word` refuses, is nowhere. -/
def OccursAt (key target : List UInt8) (t : Nat) : Prop := key ≠ [] ∧ key <+: target.drop t

/-- and nowhere before. -/
def FirstAt (key target : List UInt8) (t : Nat) : Prop := OccursAt key target t ∧ ∀ s < t, ¬ OccursAt key target s

instance (key target : List UInt8) (t : Nat) : Decidable (OccursAt key target t) :=
  inferInstanceAs (Decidable (_ ∧ _))

instance (key target : List UInt8) (t : Nat) : Decidable (FirstAt key target t) :=
  inferInstanceAs (Decidable (_ ∧ ∀ s < t, _))

/-- The key word starts with what the target ends with. -/
def Straddles (key target : List UInt8) : Prop := ∃ s, s ≠ [] ∧ s <:+ target ∧ s <+: key

/-- A search that reads inside of the target only, and returns the index of the
first occurrence or -1. -/
structure Searched (key target : List UInt8) (r : Int × List Nat) : Prop where
  inside : ∀ i ∈ r.2, i < target.length
  found : ∀ t, FirstAt key target t → r.1 = t
  notFound : (∀ t, ¬ OccursAt key target t) → r.1 = -1

variable {tgtArray : Nat → UInt8} {n : Nat} {key : List UInt8}

theorem drop_target (t : Nat) : (read tgtArray 0 n).drop t = read tgtArray t (n - t) := by
  rw [drop_read_add, Nat.zero_add]

theorem occursAt_le {t : Nat} (h : OccursAt key (read tgtArray 0 n) t) : 0 < key.length ∧ t + key.length ≤ n := by
  obtain ⟨hne, hp⟩ := h
  have hpos := List.length_pos_iff.2 hne
  have hlen := hp.length_le
  rw [drop_target, length_read] at hlen
  omega

theorem exists_first (h : ∃ t, OccursAt key (read tgtArray 0 n) t) : ∃ t, FirstAt key (read tgtArray 0 n) t := by
  classical
  exact ⟨Nat.find h, Nat.find_spec h, fun s hs => Nat.find_min h hs⟩

/-- The targets that end in a part of the key word, by the index of that part. -/
theorem straddles_iff : Straddles key (read tgtArray 0 n) ↔ ∃ t < n, read tgtArray t (n - t) <+: key := by
  constructor
  · rintro ⟨s, hne, hs, hk⟩
    have hpos := List.length_pos_iff.2 hne
    have hle := hs.length_le
    have heq := List.suffix_iff_eq_drop.1 hs
    rw [drop_target, length_read] at heq
    rw [length_read] at hle
    exact ⟨n - s.length, by omega, heq ▸ hk⟩
  · rintro ⟨t, ht, hk⟩
    refine ⟨_, ?_, ?_, hk⟩
    · rw [← List.length_pos_iff, length_read]
      omega
    · rw [← drop_target]
      exact List.drop_suffix _ _

/-! ## The loops -/

/-- A comparison ends with the key word, at a difference, or behind the target. -/
theorem compareLoop_cases (tgtArray : Nat → UInt8) (key : List UInt8) (hn : n < 2 ^ 32) (targetIndex index : Nat) (h : targetIndex + index ≤ n) :
    (key <+: read tgtArray (targetIndex + index) (n - (targetIndex + index)) ∧
      (compareLoop tgtArray targetIndex index key).1 = index + key.length ∧
      ∀ i ∈ (compareLoop tgtArray targetIndex index key).2, i < n) ∨
    (¬ key <+: read tgtArray (targetIndex + index) (n - (targetIndex + index)) ∧
      ¬ read tgtArray (targetIndex + index) (n - (targetIndex + index)) <+: key ∧
      (compareLoop tgtArray targetIndex index key).1 < index + key.length ∧
      ∀ i ∈ (compareLoop tgtArray targetIndex index key).2, i < n) ∨
    (¬ key <+: read tgtArray (targetIndex + index) (n - (targetIndex + index)) ∧
      read tgtArray (targetIndex + index) (n - (targetIndex + index)) <+: key ∧
      n ∈ (compareLoop tgtArray targetIndex index key).2) := by
  induction key generalizing index with
  | nil => exact .inl ⟨List.nil_prefix, rfl, by simp [compareLoop]⟩
  | cons k key ih =>
    have hi : (targetIndex + index) % 2 ^ 32 = targetIndex + index := Nat.mod_eq_of_lt (by omega)
    rcases Nat.lt_or_ge (targetIndex + index) n with hlt | hge
    · have hcons : read tgtArray (targetIndex + index) (n - (targetIndex + index)) =
          tgtArray (targetIndex + index) :: read tgtArray (targetIndex + (index + 1)) (n - (targetIndex + (index + 1))) := by
        have hsplit := read_add tgtArray (targetIndex + index) 1 (n - (targetIndex + (index + 1)))
        have hone : 1 + (n - (targetIndex + (index + 1))) = n - (targetIndex + index) := by omega
        rw [hone] at hsplit
        simpa [Bytes.read, Nat.add_assoc] using hsplit
      rw [hcons]
      simp only [compareLoop, hi]
      by_cases hk : tgtArray (targetIndex + index) = k
      · rw [if_neg (not_not_intro hk), hk]
        simp only [List.cons_prefix_cons, true_and, List.length_cons, List.mem_cons, forall_eq_or_imp]
        rcases ih (index + 1) (by omega) with ⟨hp, hend, hin⟩ | ⟨hp, hs, hend, hin⟩ | ⟨hp, hs, hmem⟩
        · exact .inl ⟨hp, by omega, hlt, hin⟩
        · exact .inr (.inl ⟨hp, hs, by omega, hlt, hin⟩)
        · exact .inr (.inr ⟨hp, hs, .inr hmem⟩)
      · rw [if_pos hk]
        refine .inr (.inl ⟨?_, ?_, by simp, by simpa using hlt⟩)
        · rintro h
          exact hk (List.cons_prefix_cons.1 h).1.symm
        · rintro h
          exact hk (List.cons_prefix_cons.1 h).1
    · -- the first element behind the target is read before it is compared
      have hend : targetIndex + index = n := by omega
      have hempty : read tgtArray (targetIndex + index) (n - (targetIndex + index)) = [] := by
        rw [hend, Nat.sub_self]
        rfl
      rw [hempty]
      refine .inr (.inr ⟨by simp, List.nil_prefix, ?_⟩)
      simp only [compareLoop, hend, Nat.mod_eq_of_lt hn]
      split <;> simp

theorem compareLoop_start (tgtArray : Nat → UInt8) (key : List UInt8) (hn : n < 2 ^ 32) {left t : Nat} (h : t + (left + 1) = n) :
    (key <+: (read tgtArray 0 n).drop t ∧ (compareLoop tgtArray t 0 key).1 = key.length ∧
      ∀ i ∈ (compareLoop tgtArray t 0 key).2, i < n) ∨
    (¬ key <+: (read tgtArray 0 n).drop t ∧ ¬ read tgtArray t (n - t) <+: key ∧
      (compareLoop tgtArray t 0 key).1 ≠ key.length ∧ ∀ i ∈ (compareLoop tgtArray t 0 key).2, i < n) ∨
    (¬ key <+: (read tgtArray 0 n).drop t ∧ read tgtArray t (n - t) <+: key ∧ n ∈ (compareLoop tgtArray t 0 key).2) := by
  have hcases := compareLoop_cases tgtArray key hn t 0 (by omega)
  simp only [Nat.add_zero, Nat.zero_add] at hcases
  rw [drop_target]
  rcases hcases with hc | ⟨hp, hs, hend, hin⟩ | hc
  · exact .inl hc
  · exact .inr (.inl ⟨hp, hs, Nat.ne_of_lt hend, hin⟩)
  · exact .inr (.inr hc)

/-- The first occurrence ends the search, before it comes to the end. -/
theorem findLoop_found (hn : n < 2 ^ 32) {p : Nat} (hp : OccursAt key (read tgtArray 0 n) p) {left t : Nat}
    (h : t + left = n) (htp : t ≤ p) (hfirst : ∀ s, t ≤ s → s < p → ¬ OccursAt key (read tgtArray 0 n) s) :
    (findLoop tgtArray key left t).1 = Int.bmod p (2 ^ 32) ∧ ∀ i ∈ (findLoop tgtArray key left t).2, i < n := by
  have hlen := occursAt_le hp
  induction left generalizing t with
  | zero => omega
  | succ left ih =>
    simp only [findLoop]
    rcases compareLoop_start tgtArray key hn h with ⟨hk, hend, hin⟩ | ⟨hk, -, hend, hin⟩ | ⟨hk, hs, -⟩
    · have hpt : t = p := by
        by_contra hne
        exact hfirst t (Nat.le_refl t) (by omega) ⟨hp.1, hk⟩
      rw [if_pos hend]
      exact ⟨by rw [hpt], hin⟩
    · have hne : t ≠ p := by
        rintro rfl
        exact hk hp.2
      obtain ⟨hr, hmore⟩ := ih (t := t + 1) (by omega) (by omega) fun s hs => hfirst s (by omega)
      rw [if_neg hend]
      refine ⟨hr, fun i hi => ?_⟩
      rcases List.mem_append.1 hi with hi | hi
      · exact hin i hi
      · exact hmore i hi
    · -- from `p` on there is room for the key word, so no part of it ends the target before
      have hle := hs.length_le
      rw [length_read] at hle
      have hpt : t = p := by omega
      exact absurd (hpt ▸ hp.2) hk

/-- A search for what does not occur reads inside, -/
theorem findLoop_notFound (hn : n < 2 ^ 32) (hkey : key ≠ []) (hnot : ∀ t, ¬ OccursAt key (read tgtArray 0 n) t)
    {left t : Nat} (h : t + left = n) (hs : ∀ s, t ≤ s → s < n → ¬ read tgtArray s (n - s) <+: key) :
    (findLoop tgtArray key left t).1 = -1 ∧ ∀ i ∈ (findLoop tgtArray key left t).2, i < n := by
  induction left generalizing t with
  | zero => exact ⟨rfl, by simp [findLoop]⟩
  | succ left ih =>
    simp only [findLoop]
    rcases compareLoop_start tgtArray key hn h with ⟨hk, -⟩ | ⟨-, -, hend, hin⟩ | ⟨-, hk, -⟩
    · exact absurd ⟨hkey, hk⟩ (hnot t)
    · obtain ⟨hr, hmore⟩ := ih (t := t + 1) (by omega) fun s hts => hs s (by omega)
      rw [if_neg hend]
      refine ⟨hr, fun i hi => ?_⟩
      rcases List.mem_append.1 hi with hi | hi
      · exact hin i hi
      · exact hmore i hi
    · exact absurd hk (hs t (Nat.le_refl t) (by omega))

/-- unless a part of it ends the target. -/
theorem findLoop_outside (hn : n < 2 ^ 32) (hkey : key ≠ []) (hnot : ∀ t, ¬ OccursAt key (read tgtArray 0 n) t)
    {s : Nat} (hs : s < n) (hk : read tgtArray s (n - s) <+: key) {left t : Nat} (h : t + left = n) (hts : t ≤ s) :
    n ∈ (findLoop tgtArray key left t).2 := by
  induction left generalizing t with
  | zero => omega
  | succ left ih =>
    simp only [findLoop]
    rcases compareLoop_start tgtArray key hn h with ⟨hp, -⟩ | ⟨-, hno, hend, -⟩ | ⟨-, -, hmem⟩
    · exact absurd ⟨hkey, hp⟩ (hnot t)
    · have hne : t ≠ s := by
        rintro rfl
        exact hno hk
      rw [if_neg hend]
      exact List.mem_append_right _ (ih (by omega) (by omega))
    · split
      · exact hmem
      · exact List.mem_append_left _ hmem

theorem bmod_eq_iff {p : Nat} (hp : p < 2 ^ 32) : Int.bmod p (2 ^ 32) = p ↔ p < 2 ^ 31 := by
  have hmod : (p : Int) % ((2 ^ 32 : Nat) : Int) = p := by omega
  simp only [Int.bmod, hmod]
  split <;> omega

theorem findKeyWord_found (hn : n < 2 ^ 32) {p : Nat} (hp : FirstAt key (read tgtArray 0 n) p) :
    (findKeyWord tgtArray n key).1 = Int.bmod p (2 ^ 32) ∧ ∀ i ∈ (findKeyWord tgtArray n key).2, i < n := by
  have hlen := occursAt_le hp.1
  unfold findKeyWord
  rw [if_pos ⟨hlen.1, by omega⟩]
  exact findLoop_found hn hp.1 (Nat.zero_add n) (Nat.zero_le p) fun s _ => hp.2 s

theorem FirstAt.unique {target : List UInt8} {p q : Nat} (hp : FirstAt key target p) (hq : FirstAt key target q) : p = q := by
  apply Nat.le_antisymm
  · by_contra hlt
    exact hp.2 q (Nat.lt_of_not_le hlt) hq.1
  · by_contra hlt
    exact hq.2 p (Nat.lt_of_not_le hlt) hp.1

theorem imageSanityCheck_found {flash : UInt32 → UInt8} {totalImageSize : UInt32} {t : Nat}
    (ht : FirstAt imageSanityKeyWord (read (imageTail flash totalImageSize) 0 lenOfImageTail) t) :
    imageSanityCheck flash totalImageSize =
      (hexSanityCrc flash (crc32ImageOffset t totalImageSize imageSanityKeyWord) ==
        calculatedCrc flash (crc32ImageOffset t totalImageSize imageSanityKeyWord)) := by
  have hle : t ≤ 512 := Nat.le_of_add_right_le (occursAt_le ht.1).2
  have hloc := (findKeyWord_found (by decide) ht).1
  rw [(bmod_eq_iff (by omega)).2 (by omega)] at hloc
  unfold imageSanityCheck
  simp only [hloc]
  rw [if_neg (by omega)]

/-- The search keeps inside the target and finds what is there, if the key word
ends in front of `2 ^ 31`, or is nowhere and does not start at the end of the
target. The check of an image, whose tail is short, finds the key word whenever it
is there. -/
theorem key_word_found_iff (tgtArray : Nat → UInt8) {n : Nat} (hn : n < 2 ^ 32) (key : List UInt8) :
    (Searched key (read tgtArray 0 n) (findKeyWord tgtArray n key) ↔
      key = [] ∨ n < key.length ∨ (∃ t < 2 ^ 31, FirstAt key (read tgtArray 0 n) t) ∨
        ((∀ t, ¬ OccursAt key (read tgtArray 0 n) t) ∧ ¬ Straddles key (read tgtArray 0 n))) ∧
    ∀ flash totalImageSize t,
      FirstAt imageSanityKeyWord (read (imageTail flash totalImageSize) 0 lenOfImageTail) t →
        imageSanityCheck flash totalImageSize =
          (hexSanityCrc flash (crc32ImageOffset t totalImageSize imageSanityKeyWord) ==
            calculatedCrc flash (crc32ImageOffset t totalImageSize imageSanityKeyWord)) := by
  refine ⟨?_, fun flash size t ht => imageSanityCheck_found ht⟩
  by_cases hguard : key.length > 0 ∧ n ≥ key.length
  · have hkey := List.length_pos_iff.1 hguard.1
    by_cases hoccurs : ∃ t, OccursAt key (read tgtArray 0 n) t
    · obtain ⟨p, hp⟩ := exists_first hoccurs
      obtain ⟨hr, hin⟩ := findKeyWord_found hn hp
      have hlen := occursAt_le hp.1
      have hbmod := bmod_eq_iff (p := p) (by omega)
      constructor
      · intro hs
        exact .inr (.inr (.inl ⟨p, hbmod.1 (hr ▸ hs.found p hp), hp⟩))
      · rintro (rfl | hlt | ⟨q, hq, hfirst⟩ | ⟨hnone, -⟩)
        · exact absurd rfl hkey
        · omega
        · obtain rfl := hfirst.unique hp
          refine ⟨by simpa using hin, fun t ht => ?_, fun hnone => absurd hp.1 (hnone q)⟩
          rw [ht.unique hp, hr, hbmod.2 hq]
        · exact absurd hp.1 (hnone p)
    · have hnone : ∀ t, ¬ OccursAt key (read tgtArray 0 n) t := fun t ht => hoccurs ⟨t, ht⟩
      unfold findKeyWord
      rw [if_pos hguard, straddles_iff]
      constructor
      · intro hs
        refine .inr (.inr (.inr ⟨hnone, ?_⟩))
        rintro ⟨s, hlt, hk⟩
        have hout := hs.inside n (findLoop_outside hn hkey hnone hlt hk (Nat.zero_add n) (Nat.zero_le s))
        simp at hout
      · rintro (rfl | hlt | ⟨q, -, hfirst⟩ | ⟨-, hs⟩)
        · exact absurd rfl hkey
        · omega
        · exact absurd hfirst.1 (hnone q)
        · obtain ⟨hr, hin⟩ := findLoop_notFound hn hkey hnone (Nat.zero_add n) fun s _ hlt hk => hs ⟨s, hlt, hk⟩
          exact ⟨by simpa using hin, fun t ht => absurd ht.1 (hnone t), fun _ => hr⟩
  · -- refused, and there is no room for the key word
    have hnone : ∀ t, ¬ OccursAt key (read tgtArray 0 n) t := by
      intro t ht
      have := occursAt_le ht
      omega
    unfold findKeyWord
    rw [if_neg hguard]
    refine iff_of_true ⟨by simp, fun t ht => absurd ht.1 (hnone t), fun _ => rfl⟩ ?_
    rcases Nat.eq_zero_or_pos key.length with hzero | hpos
    · exact .inl (List.eq_nil_of_length_eq_zero hzero)
    · exact .inr (.inl (by omega))

/-- The second of two partial matches goes on to a full one. -/
theorem key_word_found_four :
    Searched [7, 7, 8] (read (bufferOf [7, 7, 7, 8]) 0 4) (findKeyWord (bufferOf [7, 7, 7, 8]) 4 [7, 7, 8]) :=
  (key_word_found_iff (bufferOf [7, 7, 7, 8]) (by decide) [7, 7, 8]).1.2 (.inr (.inr (.inl ⟨1, by decide, by decide⟩)))

/-- An image that ends in the first letter of the key word, with the rest of the
key word behind it in the flash. -/
theorem key_word_behind_image :
    ∃ tail : Nat → UInt8, tail = (fun i => if i < 511 then 0 else imageSanityKeyWord.getD (i - 511) 0) ∧
      (findKeyWord tail lenOfImageTail imageSanityKeyWord).1 = 511 ∧
      lenOfImageTail ∈ (findKeyWord tail lenOfImageTail imageSanityKeyWord).2 ∧
      ¬ Searched imageSanityKeyWord (read tail 0 lenOfImageTail) (findKeyWord tail lenOfImageTail imageSanityKeyWord) := by
  refine ⟨_, rfl, by decide +kernel, by decide +kernel, fun hs => ?_⟩
  have hout := hs.inside lenOfImageTail (by decide +kernel)
  simp at hout

end Ota
