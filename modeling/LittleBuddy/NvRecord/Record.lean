import LittleBuddy.NvRecord.Model
/-!
# Valid records

What `nv_record_data_is_valid` finds in a sector depends on the bytes of the
sector only; an erased sector has no record, and the image that is written has
the record of the RAM.
-/
open NorMem

namespace NvRecord

variable {cfg : Config} {m m' : Nat → UInt8} {a a' : Nat}

/-- The record at `a`, if it is valid. -/
def Config.record (cfg : Config) (m : Nat → UInt8) (a : Nat) : Option (List UInt8) :=
  if cfg.nvRecordDataIsValid m a then some (cfg.items m a) else none

/-- The same `len` bytes at `a'` in `m'` as at `a` in `m`. -/
def SameBytes (len : Nat) (m' : Nat → UInt8) (a' : Nat) (m : Nat → UInt8) (a : Nat) : Prop :=
  ∀ j < len, m' (a' + j) = m (a + j)

theorem SameBytes.bytes_eq {len : Nat} (h : SameBytes len m' a' m a) {n k : Nat} (hk : n + k ≤ len) :
    bytes m' (a' + n) k = bytes m (a + n) k := by
  refine List.map_congr_left fun j hj => ?_
  have := h (n + j) (by have := List.mem_range.1 hj; omega)
  rwa [← Nat.add_assoc, ← Nat.add_assoc] at this

theorem SameBytes.getU32_eq {len : Nat} (h : SameBytes len m' a' m a) {n : Nat} (hn : n + 4 ≤ len) :
    getU32 m' (a' + n) = getU32 m (a + n) := by
  have hb : ∀ k < 4, m' (a' + n + k) = m (a + n + k) := fun k hk => by
    have := h (n + k) (by omega)
    rwa [← Nat.add_assoc, ← Nat.add_assoc] at this
  have h₀ : m' (a' + n) = m (a + n) := hb 0 (by decide)
  simp only [getU32, h₀, hb 1 (by decide), hb 2 (by decide), hb 3 (by decide)]

theorem SameBytes.getU16_eq {len : Nat} (h : SameBytes len m' a' m a) {n : Nat} (hn : n + 2 ≤ len) :
    getU16 m' (a' + n) = getU16 m (a + n) := by
  have h₀ := h n (by omega)
  have h₁ := h (n + 1) (by omega)
  rw [← Nat.add_assoc, ← Nat.add_assoc] at h₁
  simp only [getU16, h₀, h₁]

section Fields
variable {m data : Nat → UInt8} {a offs n v : Nat}

theorem sameBytes_memcpy {len : Nat} (h : a + len ≤ offs ∨ offs + n ≤ a) :
    SameBytes len (memcpy m offs data n) a m a :=
  fun j hj => memcpy_other (by unfold InRange; omega)

/-- A field is as before behind a change elsewhere. -/
theorem getU32_memcpy (h : a + 4 ≤ offs ∨ offs + n ≤ a) : getU32 (memcpy m offs data n) a = getU32 m a :=
  (sameBytes_memcpy h).getU32_eq (n := 0) (Nat.le_refl 4)

theorem getU16_memcpy (h : a + 2 ≤ offs ∨ offs + n ≤ a) : getU16 (memcpy m offs data n) a = getU16 m a :=
  (sameBytes_memcpy h).getU16_eq (n := 0) (Nat.le_refl 2)

theorem getU32_putU32 (hv : v < 2 ^ 32) : getU32 (putU32 m a v) a = v := by
  have hb : ∀ j < 4, putU32 m a v (a + j) = UInt8.ofNat (v / 2 ^ (8 * j)) := by
    intro j hj
    rw [putU32, memcpy_of (by unfold InRange; omega), Nat.add_sub_cancel_left]
  have h₀ : putU32 m a v a = UInt8.ofNat (v / 2 ^ (8 * 0)) := hb 0 (by decide)
  simp only [getU32, h₀, hb 1 (by decide), hb 2 (by decide), hb 3 (by decide), UInt8.toNat_ofNat']
  omega

theorem getU16_putU16 (hv : v < 2 ^ 16) : getU16 (putU16 m a v) a = v := by
  have hb : ∀ j < 2, putU16 m a v (a + j) = UInt8.ofNat (v / 2 ^ (8 * j)) := by
    intro j hj
    rw [putU16, memcpy_of (by unfold InRange; omega), Nat.add_sub_cancel_left]
  have h₀ : putU16 m a v a = UInt8.ofNat (v / 2 ^ (8 * 0)) := hb 0 (by decide)
  simp only [getU16, h₀, hb 1 (by decide), UInt8.toNat_ofNat']
  omega

end Fields

theorem SameBytes.items_eq (h : SameBytes extensionSize m' a' m a) : cfg.items m' a' = cfg.items m a := by
  have := cfg.fits
  exact h.bytes_eq (by simp only [headerSize, extensionSize] at *; omega)

theorem SameBytes.valid_eq (h : SameBytes extensionSize m' a' m a) :
    cfg.nvRecordDataIsValid m' a' = cfg.nvRecordDataIsValid m a := by
  have h₀ : getU32 m' a' = getU32 m a := h.getU32_eq (n := 0) (by decide)
  have h₄ := h.getU16_eq (n := 4) (by decide)
  have h₈ := h.getU32_eq (n := 8) (by decide)
  have h₁₂ := h.getU32_eq (n := 12) (by decide)
  unfold Config.nvRecordDataIsValid
  rw [h₀, h₄, h₈, h₁₂]
  by_cases hlen : getU32 m (a + 8) ≤ extensionSize - headerSize
  · have hle : headerSize + getU32 m (a + 8) ≤ extensionSize := by simp only [headerSize, extensionSize] at *; omega
    rw [h.bytes_eq hle]
  · simp [hlen]

theorem SameBytes.record_eq (h : SameBytes extensionSize m' a' m a) : cfg.record m' a' = cfg.record m a := by
  unfold Config.record
  rw [h.valid_eq, h.items_eq]

/-- An erased sector is not valid: its version is `0xffff`. -/
theorem record_erased (h : ∀ j < extensionSize, m (a + j) = 0xff) : cfg.record m a = none := by
  have h₄ := h 4 (by decide)
  have h₅ := h 5 (by decide)
  have hv : getU16 m (a + 4) = 0xffff := by
    simp only [getU16, Nat.add_assoc, Nat.reduceAdd, h₄, h₅]
    decide
  have hne : (getU16 m (a + 4) == majorVersion) = false := by rw [hv]; decide
  simp [Config.record, Config.nvRecordDataIsValid, hne]

theorem setCrc_other {j : Nat} (hj : headerSize ≤ j) : cfg.setCrc m j = m j := by
  have hr : ¬ InRange 12 4 j := by
    unfold InRange
    simp only [headerSize] at hj
    omega
  rw [Config.setCrc, putU32, memcpy_other hr]

theorem items_setCrc : cfg.items (cfg.setCrc m) 0 = cfg.items m 0 := by
  refine List.map_congr_left fun j _ => ?_
  exact setCrc_other (by simp only [headerSize]; omega)

/-- What a sector holds after the RAM was written over an erased one. -/
theorem record_image (hv : cfg.nvRecordDataIsValid (cfg.setCrc m) 0 = true)
    (h : ∀ j < extensionSize, m' (a' + j) = cfg.setCrc m j) : cfg.record m' a' = some (cfg.items m 0) := by
  have hs : SameBytes extensionSize m' a' (cfg.setCrc m) 0 := fun j hj => by rw [h j hj, Nat.zero_add]
  rw [hs.record_eq, Config.record, if_pos hv, items_setCrc]

end NvRecord
