import LittleBuddy.Apps.PacketLoss
import LittleBuddy.Lib.Runs
/-!
# Alignment of mSBC frames

`process_downlink_msbc_frames` of `apps/audioplayers/voicebtpcmplay_sco_dma_snapshot.cpp`:
each call appends 60 or 120 bytes to the last 60 ones, finds out where frames
begin, and hands as many blocks of 60 bytes to `packet_loss_detection_process`.

What is decoded of a block, or made up for it, goes to `pcm_buf` and is left out.
`none` stands for a read outside of `msbc_buf_all`.
-/
open PlcUtils Runs

namespace MsbcSync

/-! ## The code -/

/-- `MSBC_LEN_FORMBT_PER_FRAME` and `MSBC_LEN_PER_FRAME`, and `BYTES_PER_PCM_FRAME`. -/
abbrev frameLen : Nat := 60
abbrev bytesPerPcmFrame : Nat := 240

/-- The size of `msbc_buf_all`. -/
abbrev bufSize : Nat := frameLen * 3 + 1

/-- `msbc_buf_all`. -/
abbrev Buf := Vector UInt8 bufSize

def Buf.read (buf : Buf) (i : Int) : Option UInt8 := if 0 ≤ i then buf[i.toNat]? else none

/-- A call: its bytes, `pcm_len`, and which of the blocks the decoder decodes. -/
structure Call where
  msbc_buf : List UInt8
  pcm_len : Nat
  decodes : Nat → Bool

/-- The number of frames of a call. -/
def Call.frames (c : Call) : Nat := c.msbc_buf.length / frameLen

/-- The static variables. `handed` is a ghost: the blocks handed to `packet_loss_detection_process` so
far, each with `msbc_find_first_sync` at that time. -/
structure St where
  msbc_buf_all : Buf
  msbc_find_first_sync : Bool
  msbc_offset : Nat
  next_frame_flag : Bool
  pld : PacketLossState
  handed : List (Bool × Pkt)

/-- The bytes of the call behind the last ones. -/
def copyIn (buf : Buf) (msbc_buf : List UInt8) : Buf :=
  Vector.ofFn fun k => if frameLen ≤ k.val ∧ k.val < frameLen + msbc_buf.length then msbc_buf.getD (k.val - frameLen) 0
    else buf.get k

/-- The test for a header at `i`, which reads no further than it holds. -/
def headerAt (buf : Buf) (i : Nat) : Option Bool := do
  if (← buf.read i) = 0x01 then
    if (← buf.read (i + 1)) &&& 0x0f = 0x08 then some (decide ((← buf.read (i + 2)) = 0xad)) else some false
  else some false

/-- The search for the first header, from `i` on: its index, or the number of bytes. -/
def syncLoop (buf : Buf) : Nat → Nat → Option Nat
  | 0, i => some i
  | n + 1, i => do if ← headerAt buf i then some i else syncLoop buf n (i + 1)

/-- `msbc_find_first_sync`, `msbc_offset` and `msbc_offset_total` behind the search. -/
def locate (s : St) (buf : Buf) (msbc_len : Nat) : Option (Bool × Nat × Nat) :=
  if s.msbc_find_first_sync then some (true, s.msbc_offset, 0)
  else do
    let i ← syncLoop buf msbc_len 0
    some (if i < msbc_len then (true, i % frameLen, i) else (false, s.msbc_offset, 0))

/-- `msbc_offset_lowdelay` of a call in sync. -/
def lowdelay (msbc_offset : Nat) : Nat := if msbc_offset = 0 ∨ msbc_offset = 1 then msbc_offset + frameLen else msbc_offset

/-- `frame_flag[j]` and `msbc_offset_drift[j]`. -/
def checkFrame (cfg : Config) (buf : Buf) (msbc_offset_lowdelay msbc_offset_total j : Nat) : Option (Nat × Int) := do
  let idx := msbc_offset_lowdelay + j * frameLen
  let headerm1 ← if msbc_offset_lowdelay = 0 ∧ j = 0 then some 0x01 else buf.read (idx - 1)
  let header0 ← buf.read idx
  let header1 ← buf.read (idx + 1)
  let header2 ← buf.read (idx + 2)
  let header3 ← buf.read (idx + 3)
  some (
    if headerm1 = 0x01 ∧ header0 &&& 0x0f = 0x08 ∧ header1 = 0xad then (0, -1)
    else if header0 = 0x01 ∧ header1 &&& 0x0f = 0x08 ∧ header2 = 0xad then (0, 0)
    else if header1 = 0x01 ∧ header2 &&& 0x0f = 0x08 ∧ header3 = 0xad then (0, 1)
    else if header0 = cfg.mutePattern ∧ header1 &&& 0x0f = cfg.mutePattern &&& 0x0f ∧ header2 = cfg.mutePattern then (1, 0)
    else if msbc_offset_total ≤ idx then (3, 0)
    else (1, 0))

/-- The second check of all the frames. -/
def checkFrames (cfg : Config) (buf : Buf) (msbc_offset_lowdelay msbc_offset_total n : Nat) (next_frame_flag : Bool) :
    Option (List (Nat × Int) × Bool) :=
  (List.range n).foldlM (fun (x : List (Nat × Int) × Bool) j =>
    if x.2 then some (x.1 ++ [(1, 0)], false)
    else do some (x.1 ++ [← checkFrame cfg buf msbc_offset_lowdelay msbc_offset_total j], false)) ([], next_frame_flag)

/-- `dec_msbc_buf`: the block of a frame. -/
def takeBlock (buf : Buf) (msbc_offset_lowdelay frame_counter : Nat) (drift : Int) : Option Pkt :=
  let start_idx := if msbc_offset_lowdelay = 0 ∧ drift = -1 then 1 else 0
  let src (i : Nat) := buf.read (i + msbc_offset_lowdelay + drift + frame_counter * frameLen)
  if ∀ i < frameLen, start_idx ≤ i → (src i).isSome then
    some (Vector.ofFn fun i => if start_idx ≤ i.val then (src i.val).getD 0 else 0x01)
  else none

/-- A block is handed to `packet_loss_detection_process`, and decoded if it passes. -/
def handFrame (cfg : Config) (c : Call) (buf : Buf) (sync : Bool) (msbc_offset_lowdelay : Nat) (drifts : List Int)
    (x : PacketLossState × List (Bool × Pkt)) (frame_counter : Nat) : Option (PacketLossState × List (Bool × Pkt)) := do
  let dec_msbc_buf ← takeBlock buf msbc_offset_lowdelay frame_counter (drifts.getD frame_counter 0)
  let (plc_type, pld) := packetLossDetectionProcess cfg x.1 dec_msbc_buf
  let pld := if plc_type = .pass ∧ c.decodes frame_counter = false then packetLossDetectionUpdateHistogram pld .decoderError else pld
  some (pld, x.2 ++ [(sync, dec_msbc_buf)])

/-- The last 60 bytes go to the front. -/
def keepLast (buf : Buf) (msbc_len : Nat) : Option Buf :=
  if ∀ i < frameLen, (buf.read (i + msbc_len)).isSome then
    some (Vector.ofFn fun k => if k.val < frameLen then (buf.read (k.val + msbc_len)).getD 0 else buf.get k)
  else none

/-- `process_downlink_msbc_frames`. -/
def processDownlinkMsbcFrames (cfg : Config) (c : Call) (s : St) : Option St := do
  let msbc_len := c.msbc_buf.length
  let buf := copyIn s.msbc_buf_all c.msbc_buf
  let (sync, msbc_offset, msbc_offset_total) ← locate s buf msbc_len
  let low := if sync then lowdelay msbc_offset else 0
  let (found, next_frame_flag) ←
    if sync then checkFrames cfg buf low msbc_offset_total c.frames s.next_frame_flag else some ([], s.next_frame_flag)
  let value := found.foldl (fun v x => v ||| x.1) 0
  let sync := sync && decide (value ≤ 1)
  let (pld, handed) ← (List.range (min c.frames (c.pcm_len / bytesPerPcmFrame))).foldlM
    (handFrame cfg c buf sync low (found.map Prod.snd)) (s.pld, s.handed)
  let msbc_buf_all ← keepLast buf msbc_len
  some ⟨msbc_buf_all, sync, msbc_offset, next_frame_flag, pld, handed⟩

/-- After `voicebtpcm_pcm_audio_init`; `msbc_offset` is left as it was. -/
def Init (cfg : Config) (s : St) : Prop :=
  ∃ msbc_offset, s = ⟨.replicate _ cfg.mutePattern, false, msbc_offset, false, packetLossDetectionInit, []⟩

/-! ## What goes wrong -/

/-- A header at `p`. -/
def Header (f : Nat → UInt8) (p : Nat) : Prop := f p = 0x01 ∧ f (p + 1) &&& 0x0f = 0x08 ∧ f (p + 2) = 0xad

instance (f : Nat → UInt8) (p : Nat) : Decidable (Header f p) := inferInstanceAs (Decidable (_ ∧ _ ∧ _))

def Buf.byteAt (buf : Buf) (i : Nat) : UInt8 := buf[i]?.getD 0

/-- The last 60 bytes and those of the call. -/
def window (s : St) (c : Call) : Nat → UInt8 := (copyIn s.msbc_buf_all c.msbc_buf).byteAt

/-- The frames begin at `o` modulo 60 in this call: as known, or by its first header. -/
def BeginsAt (s : St) (c : Call) (o : Nat) : Prop :=
  s.msbc_find_first_sync = true ∧ s.msbc_offset = o ∨
    s.msbc_find_first_sync = false ∧ ∃ i < c.msbc_buf.length, i % frameLen = o ∧ Header (window s c) i ∧
      ∀ p < i, ¬ Header (window s c) p

/-- With `msbc_offset` 1, the last frame of a call comes one byte late, so that it ends two bytes behind those of the call. -/
def Late (s : St) (c : Call) : Prop := BeginsAt s c 1 ∧ Header (window s c) (c.msbc_buf.length + 2)

/-- A call of 60 or 120 bytes whose last frame is not late. -/
def Cond (c : Call) (s : St) : Prop := (c.msbc_buf.length = 60 ∨ c.msbc_buf.length = 120) ∧ ¬ Late s c

instance (s : St) (c : Call) (o : Nat) : Decidable (BeginsAt s c o) := inferInstanceAs (Decidable (_ ∧ _ ∨ _ ∧ _))
instance (s : St) (c : Call) : Decidable (Late s c) := inferInstanceAs (Decidable (_ ∧ _))
instance (c : Call) (s : St) : Decidable (Cond c s) := inferInstanceAs (Decidable (_ ∧ _))

/-! ## The buffer -/

variable {cfg : Config} {buf : Buf} {s s' : St} {c : Call}

theorem read_of_lt {i : Nat} (h : i < bufSize) : buf.read i = some (buf.byteAt i) := by
  unfold Buf.read Buf.byteAt
  rw [if_pos (Int.natCast_nonneg i), Int.toNat_natCast, Vector.getElem?_eq_getElem h]
  rfl

theorem byteAt_copyIn {l : List UInt8} {k : Nat} (hk : k < bufSize) : (copyIn buf l).byteAt k =
    if frameLen ≤ k ∧ k < frameLen + l.length then l.getD (k - frameLen) 0 else buf.byteAt k := by
  unfold copyIn Buf.byteAt
  rw [Vector.getElem?_ofFn, dif_pos hk, Vector.getElem?_eq_getElem hk]
  rfl

/-! ## The search -/

theorem headerAt_eq {i : Nat} (h : i + 2 < bufSize) : headerAt buf i = some (decide (Header buf.byteAt i)) := by
  have h₀ : buf.read i = some (buf.byteAt i) := read_of_lt (by omega)
  have h₁ : buf.read (i + 1) = some (buf.byteAt (i + 1)) := @read_of_lt buf (i + 1) (by omega)
  have h₂ : buf.read (i + 2) = some (buf.byteAt (i + 2)) := @read_of_lt buf (i + 2) h
  unfold headerAt Header
  simp only [h₀, h₁, h₂, Option.bind_eq_bind, Option.bind_some]
  by_cases hm : buf.byteAt i = 0x01 <;> by_cases hn : buf.byteAt (i + 1) &&& 0x0f = 0x08 <;> simp [hm, hn]

/-- The first header from `i` on, within `n` bytes. -/
theorem syncLoop_spec (n i : Nat) (h : i + n + 2 ≤ bufSize) : ∃ r, syncLoop buf n i = some r ∧ r ≤ i + n ∧
    (∀ p, i ≤ p → p < r → ¬ Header buf.byteAt p) ∧ (r < i + n → Header buf.byteAt r) := by
  induction n generalizing i with
  | zero => exact ⟨i, rfl, Nat.le_refl _, fun p h₁ h₂ => absurd h₁ (Nat.not_le.2 h₂), fun h => absurd h (Nat.lt_irrefl _)⟩
  | succ n ih =>
    unfold syncLoop
    rw [headerAt_eq (by omega)]
    by_cases hi : Header buf.byteAt i
    · exact ⟨i, by simp [hi], by omega, fun p h₁ h₂ => absurd h₁ (Nat.not_le.2 h₂), fun _ => hi⟩
    · obtain ⟨r, hr, hle, hno, hyes⟩ := ih (i + 1) (by omega)
      refine ⟨r, by simpa [hi] using hr, by omega, fun p h₁ h₂ => ?_, fun hlt => hyes (by omega)⟩
      rcases Nat.eq_or_lt_of_le h₁ with rfl | h₁
      · exact hi
      · exact hno p h₁ h₂

/-- What the search finds out. -/
inductive Located (s : St) (w : Nat → UInt8) (len : Nat) : Bool → Nat → Nat → Prop
  | known : s.msbc_find_first_sync = true → Located s w len true s.msbc_offset 0
  | found (i : Nat) : s.msbc_find_first_sync = false → i < len → Header w i → (∀ p < i, ¬ Header w p) →
    Located s w len true (i % frameLen) i
  | none : s.msbc_find_first_sync = false → (∀ p < len, ¬ Header w p) → Located s w len false s.msbc_offset 0

theorem locate_spec {len : Nat} (hlen : len + 2 ≤ bufSize) :
    ∃ sync o total, locate s buf len = some (sync, o, total) ∧ Located s buf.byteAt len sync o total := by
  unfold locate
  cases hs : s.msbc_find_first_sync with
  | true => exact ⟨true, s.msbc_offset, 0, rfl, .known hs⟩
  | false =>
    obtain ⟨i, hi, -, hno, hyes⟩ := @syncLoop_spec buf len 0 (by omega)
    rw [Nat.zero_add] at hyes
    simp only [Bool.false_eq_true, if_false, hi, Option.bind_eq_bind, Option.bind_some]
    by_cases hlt : i < len
    · rw [if_pos hlt]
      exact ⟨true, i % frameLen, i, rfl, .found i hs hlt (hyes hlt) fun p hp => hno p (Nat.zero_le _) hp⟩
    · rw [if_neg hlt]
      exact ⟨false, s.msbc_offset, 0, rfl, .none hs fun p hp => hno p (Nat.zero_le _) (by omega)⟩

theorem Located.beginsAt {o total : Nat} (h : Located s (window s c) c.msbc_buf.length true o total) : BeginsAt s c o := by
  cases h with
  | known hs => exact .inl ⟨hs, rfl⟩
  | found _ hs hlt hi hno => exact .inr ⟨hs, total, hlt, rfl, hi, hno⟩

/-! ## The second check -/

/-- The verdict about a frame that should begin at `idx`. -/
def verdict (cfg : Config) (w : Nat → UInt8) (total idx : Nat) : Nat × Int :=
  if Header w (idx - 1) then (0, -1)
  else if Header w idx then (0, 0)
  else if Header w (idx + 1) then (0, 1)
  else if w idx = cfg.mutePattern ∧ w (idx + 1) &&& 0x0f = cfg.mutePattern &&& 0x0f ∧ w (idx + 2) = cfg.mutePattern then (1, 0)
  else if total ≤ idx then (3, 0)
  else (1, 0)

theorem checkFrame_eq {low total j : Nat} (hlow : 0 < low) (h : low + j * frameLen + 3 < bufSize) :
    checkFrame cfg buf low total j = some (verdict cfg buf.byteAt total (low + j * frameLen)) := by
  obtain ⟨i, hi⟩ : ∃ i, low + j * frameLen = i + 1 := ⟨low + j * frameLen - 1, by omega⟩
  unfold checkFrame verdict
  simp only [hi] at h ⊢
  have h₀ : buf.read (((i + 1 : Nat) : Int) - 1) = some (buf.byteAt i) := by
    rw [Int.natCast_add, Int.natCast_one, Int.add_sub_cancel]
    exact read_of_lt (by omega)
  have h₁ : buf.read ((i + 1 : Nat) : Int) = some (buf.byteAt (i + 1)) := read_of_lt (by omega)
  have h₂ : buf.read (((i + 1 : Nat) : Int) + 1) = some (buf.byteAt (i + 1 + 1)) := @read_of_lt buf (i + 1 + 1) (by omega)
  have h₃ : buf.read (((i + 1 : Nat) : Int) + 2) = some (buf.byteAt (i + 1 + 2)) := @read_of_lt buf (i + 1 + 2) (by omega)
  have h₄ : buf.read (((i + 1 : Nat) : Int) + 3) = some (buf.byteAt (i + 1 + 3)) := @read_of_lt buf (i + 1 + 3) h
  rw [if_neg (by omega), h₀, h₁, h₂, h₃, h₄]
  rfl

theorem checkFrames_eq {low total n : Nat} (hlow : 0 < low) (h : low + n * 60 + 3 < 241) :
    checkFrames cfg buf low total n false =
      some ((List.range n).map fun j => verdict cfg buf.byteAt total (low + j * frameLen), false) := by
  unfold checkFrames
  induction n with
  | zero => rfl
  | succ n ih =>
    have hn := @checkFrame_eq cfg buf low total n hlow (by simp only [frameLen, bufSize]; omega)
    rw [List.range_succ, List.foldlM_append, ih (by omega)]
    simp [hn]

/-- A drift stays within one byte, and is where the header is. -/
theorem verdict_drift (cfg : Config) (w : Nat → UInt8) (total idx : Nat) :
    -1 ≤ (verdict cfg w total idx).2 ∧ (verdict cfg w total idx).2 ≤ 1 ∧
      ((verdict cfg w total idx).2 = 1 → Header w (idx + 1)) := by
  unfold verdict
  split_ifs with h₁ h₂ h₃ <;> simp [*]

/-- Flags of good frames do not end the sync. -/
theorem value_le {l : List (Nat × Int)} (h : ∀ x ∈ l, x.1 ≤ 1) : l.foldl (fun v x => v ||| x.1) 0 ≤ 1 := by
  have main : ∀ (l : List (Nat × Int)) (v : Nat), v < 2 ^ 1 → (∀ x ∈ l, x.1 < 2 ^ 1) →
      l.foldl (fun v x => v ||| x.1) v < 2 ^ 1 := by
    intro l
    induction l with
    | nil => exact fun v hv _ => hv
    | cons x l ih =>
      intro v hv hl
      exact ih _ (Nat.or_lt_two_pow hv (hl x (List.mem_cons_self ..))) fun y hy => hl y (List.mem_cons_of_mem _ hy)
  exact Nat.lt_succ_iff.1 (main l 0 (by decide) fun x hx => Nat.lt_succ_iff.2 (h x hx))

/-! ## The blocks -/

/-- The block at `p` of the buffer. -/
theorem takeBlock_spec {low fc p : Nat} {drift : Int} (hp : (p : Int) = low + drift + fc * frameLen)
    (hlt : p + 59 < bufSize) (hlow : ¬ (low = 0 ∧ drift = -1)) :
    ∃ pkt, takeBlock buf low fc drift = some pkt ∧ ∀ i < frameLen, pkt.byte i = buf.byteAt (p + i) := by
  have hsrc : ∀ i < frameLen, buf.read ((i : Int) + low + drift + fc * frameLen) = some (buf.byteAt (p + i)) := by
    intro i hi
    have hidx : (i : Int) + low + drift + fc * frameLen = ((p + i : Nat) : Int) := by
      rw [Int.natCast_add, hp]
      omega
    rw [hidx]
    exact read_of_lt (by simp only [frameLen, bufSize] at *; omega)
  unfold takeBlock
  simp only [if_neg hlow]
  rw [if_pos fun i hi _ => by rw [hsrc i hi]; rfl]
  refine ⟨_, rfl, fun i hi => ?_⟩
  unfold Pkt.byte
  rw [Vector.getElem?_ofFn, dif_pos hi, if_pos (Nat.zero_le _), hsrc i hi]
  rfl

theorem handFrames_spec {sync : Bool} {low n : Nat} {drifts : List Int} (blk : Nat → Pkt)
    (h : ∀ j < n, takeBlock buf low j (drifts.getD j 0) = some (blk j)) (pld : PacketLossState) (handed : List (Bool × Pkt)) :
    ∃ pld', (List.range n).foldlM (handFrame cfg c buf sync low drifts) (pld, handed) =
      some (pld', handed ++ (List.range n).map fun j => (sync, blk j)) := by
  induction n with
  | zero => exact ⟨pld, by simp [pure]⟩
  | succ n ih =>
    obtain ⟨pld', hn⟩ := ih fun j hj => h j (by omega)
    obtain ⟨pld'', hone⟩ : ∃ pld'', handFrame cfg c buf sync low drifts
        (pld', handed ++ (List.range n).map fun j => (sync, blk j)) n =
          some (pld'', (handed ++ (List.range n).map fun j => (sync, blk j)) ++ [(sync, blk n)]) := by
      unfold handFrame
      rw [h n (Nat.lt_succ_self n)]
      exact ⟨_, rfl⟩
    refine ⟨pld'', ?_⟩
    rw [List.range_succ, List.foldlM_append, hn]
    simp only [Option.bind_eq_bind, Option.bind_some, List.foldlM_cons, List.foldlM_nil, hone]
    simp [pure]

theorem keepLast_spec {len : Nat} (h : len + 59 < bufSize) :
    ∃ buf', keepLast buf len = some buf' ∧ ∀ i < frameLen, buf'.byteAt i = buf.byteAt (i + len) := by
  have hsrc : ∀ i < frameLen, buf.read ((i : Int) + len) = some (buf.byteAt (i + len)) := fun i hi =>
    @read_of_lt buf (i + len) (by simp only [frameLen, bufSize] at *; omega)
  unfold keepLast
  rw [if_pos fun i hi => by rw [hsrc i hi]; rfl]
  refine ⟨_, rfl, fun i hi => ?_⟩
  have hb : i < bufSize := by simp only [frameLen, bufSize] at *; omega
  rw [Buf.byteAt, Vector.getElem?_ofFn, dif_pos hb, if_pos hi, hsrc i hi]
  rfl

/-! ## One call -/

/-- What a call does, by what the search has found out. -/
structure Stepped (cfg : Config) (s : St) (c : Call) (sync : Bool) (o total : Nat) (s' : St) : Prop where
  offset : s'.msbc_offset = o
  next : s'.next_frame_flag = false
  buffer : ∀ i < frameLen, s'.msbc_buf_all.byteAt i = window s c (i + c.msbc_buf.length)
  sync_of : s'.msbc_find_first_sync = true → sync = true
  stays : sync = true → (∀ j < c.frames, (verdict cfg (window s c) total (lowdelay o + j * frameLen)).1 ≤ 1) →
    s'.msbc_find_first_sync = true
  blocks : ∃ blk : Nat → Pkt, s'.handed = s.handed ++
    (List.range (min c.frames (c.pcm_len / bytesPerPcmFrame))).map (fun j => (s'.msbc_find_first_sync, blk j)) ∧
    (sync = true → ∀ j < c.frames, ∀ p : Nat,
      (p : Int) = lowdelay o + (verdict cfg (window s c) total (lowdelay o + j * frameLen)).2 + j * frameLen →
      ∀ i < frameLen, (blk j).byte i = window s c (p + i))

theorem lowdelay_bounds {o : Nat} (h : o < frameLen) : 2 ≤ lowdelay o ∧ lowdelay o ≤ 61 ∧ (lowdelay o = 61 → o = 1) := by
  unfold lowdelay
  simp only [frameLen] at *
  split <;> omega

theorem Cond.frames (hc : Cond c s) : c.frames ≤ 2 := by
  unfold Call.frames
  rcases hc.1 with h | h <;> rw [h] <;> decide

theorem Call.length_eq (h : c.msbc_buf.length = 60 ∨ c.msbc_buf.length = 120) : c.msbc_buf.length = frameLen * c.frames := by
  unfold Call.frames
  rcases h with h | h <;> rw [h] <;> rfl

/-- Where the last frame is not late, each block is in the buffer, and all of it but its last byte in what the calls have brought. -/
theorem block_in {o total j : Nat} (hc : Cond c s) (hl : Located s (window s c) c.msbc_buf.length true o total)
    (ho : o < frameLen) (hj : j < c.frames) : ∃ p : Nat, p + 59 < bufSize ∧ p + 58 < frameLen + c.msbc_buf.length ∧
      (p : Int) = lowdelay o + (verdict cfg (window s c) total (lowdelay o + j * frameLen)).2 + j * frameLen := by
  obtain ⟨hlow, hhigh, hone⟩ := lowdelay_bounds ho
  obtain ⟨hge, hle, hdrift⟩ := verdict_drift cfg (window s c) total (lowdelay o + j * frameLen)
  have hframes := hc.frames
  have hlen := Call.length_eq hc.1
  obtain ⟨d, hd⟩ : ∃ d, d = (verdict cfg (window s c) total (lowdelay o + j * frameLen)).2 := ⟨_, rfl⟩
  rw [← hd] at hge hle hdrift ⊢
  have hlate : ¬ (lowdelay o = 61 ∧ d = 1 ∧ j + 1 = c.frames) := by
    rintro ⟨h61, h1, hlast⟩
    refine hc.2 ⟨hone h61 ▸ hl.beginsAt, ?_⟩
    have := hdrift h1
    rw [h61] at this
    rw [hlen, ← hlast]
    simp only [frameLen] at this ⊢
    rwa [show 60 * (j + 1) + 2 = 61 + j * 60 + 1 by omega]
  refine ⟨(lowdelay o + d + j * frameLen).toNat, ?_, ?_, ?_⟩ <;> simp only [frameLen, bufSize] at * <;> omega

/-- Without a header, the blocks are those of the old offset 0. -/
theorem process_unsynced {o total : Nat} (hnext : s.next_frame_flag = false) (hc : Cond c s)
    (hloc : locate s (copyIn s.msbc_buf_all c.msbc_buf) c.msbc_buf.length = some (false, o, total)) :
    ∃ s', processDownlinkMsbcFrames cfg c s = some s' ∧ Stepped cfg s c false o total s' := by
  have hlen := Call.length_eq hc.1
  have hframes := hc.frames
  obtain ⟨buf', hkeep, hbuf⟩ := @keepLast_spec (copyIn s.msbc_buf_all c.msbc_buf) c.msbc_buf.length
    (by simp only [bufSize, frameLen] at *; omega)
  have hblock : ∀ j, ∃ pkt, j < c.frames → takeBlock (copyIn s.msbc_buf_all c.msbc_buf) 0 j 0 = some pkt := by
    intro j
    by_cases hj : j < c.frames
    · obtain ⟨pkt, hp, -⟩ := @takeBlock_spec (copyIn s.msbc_buf_all c.msbc_buf) 0 j (j * frameLen) 0 (by simp)
        (by simp only [frameLen, bufSize]; omega) (by simp)
      exact ⟨pkt, fun _ => hp⟩
    · exact ⟨.replicate _ 0, fun h => absurd h hj⟩
  choose blk hblk using hblock
  obtain ⟨pld', hhand⟩ := @handFrames_spec cfg (copyIn s.msbc_buf_all c.msbc_buf) c false 0
    (min c.frames (c.pcm_len / bytesPerPcmFrame)) [] blk (fun j hj => hblk j (by omega)) s.pld s.handed
  refine ⟨⟨buf', false, o, s.next_frame_flag, pld',
    s.handed ++ (List.range (min c.frames (c.pcm_len / bytesPerPcmFrame))).map fun j => (false, blk j)⟩, ?_, ?_⟩
  · unfold processDownlinkMsbcFrames
    simp only [hloc, Option.bind_eq_bind, Option.bind_some, Bool.false_eq_true, if_false, Bool.false_and, List.map_nil, hhand, hkeep]
  · exact ⟨rfl, hnext, hbuf, by simp, by simp, blk, rfl, by simp⟩

/-- In sync, a block is where the second check has found its header. -/
theorem process_synced {o total : Nat} (hnext : s.next_frame_flag = false) (hc : Cond c s) (ho : o < frameLen)
    (hl : Located s (window s c) c.msbc_buf.length true o total)
    (hloc : locate s (copyIn s.msbc_buf_all c.msbc_buf) c.msbc_buf.length = some (true, o, total)) :
    ∃ s', processDownlinkMsbcFrames cfg c s = some s' ∧ Stepped cfg s c true o total s' := by
  have hlen := Call.length_eq hc.1
  have hframes := hc.frames
  obtain ⟨hlow, hhigh, -⟩ := lowdelay_bounds ho
  obtain ⟨buf', hkeep, hbuf⟩ := @keepLast_spec (copyIn s.msbc_buf_all c.msbc_buf) c.msbc_buf.length
    (by simp only [bufSize, frameLen] at *; omega)
  have hcheck := @checkFrames_eq cfg (copyIn s.msbc_buf_all c.msbc_buf) (lowdelay o) total c.frames (by omega) (by omega)
  have hblock : ∀ j, ∃ pkt, j < c.frames → takeBlock (copyIn s.msbc_buf_all c.msbc_buf) (lowdelay o) j
      (verdict cfg (window s c) total (lowdelay o + j * frameLen)).2 = some pkt ∧ ∀ p : Nat,
        (p : Int) = lowdelay o + (verdict cfg (window s c) total (lowdelay o + j * frameLen)).2 + j * frameLen →
        ∀ i < frameLen, pkt.byte i = window s c (p + i) := by
    intro j
    by_cases hj : j < c.frames
    · obtain ⟨p, hlt, -, hp⟩ := @block_in cfg s c o total j hc hl ho hj
      obtain ⟨pkt, hpkt, hbytes⟩ := @takeBlock_spec (copyIn s.msbc_buf_all c.msbc_buf) (lowdelay o) j p _ hp hlt
        (fun h => by omega)
      refine ⟨pkt, fun _ => ⟨hpkt, fun p' hp' => ?_⟩⟩
      rw [Int.ofNat_inj.1 (hp'.trans hp.symm)]
      exact hbytes
    · exact ⟨.replicate _ 0, fun h => absurd h hj⟩
  choose blk hblk using hblock
  have hdrifts : ∀ j < min c.frames (c.pcm_len / bytesPerPcmFrame), takeBlock (copyIn s.msbc_buf_all c.msbc_buf) (lowdelay o) j
      ((((List.range c.frames).map fun j => verdict cfg (window s c) total (lowdelay o + j * frameLen)).map Prod.snd).getD j 0) =
        some (blk j) := by
    intro j hj
    rw [List.map_map, List.getD_eq_getElem?_getD, List.getElem?_map, List.getElem?_range (by omega)]
    exact (hblk j (by omega)).1
  obtain ⟨good, hgood⟩ : ∃ good, good = (true && decide (((List.range c.frames).map fun j =>
    verdict cfg (window s c) total (lowdelay o + j * frameLen)).foldl (fun v x => v ||| x.1) 0 ≤ 1)) := ⟨_, rfl⟩
  obtain ⟨pld', hhand⟩ := @handFrames_spec cfg _ c good _ _ _ blk hdrifts s.pld s.handed
  refine ⟨⟨buf', good, o, false, pld',
    s.handed ++ (List.range (min c.frames (c.pcm_len / bytesPerPcmFrame))).map fun j => (good, blk j)⟩, ?_, ?_⟩
  · unfold processDownlinkMsbcFrames
    simp only [hloc, Option.bind_eq_bind, Option.bind_some, if_true, hnext, hcheck]
    rw [show (copyIn s.msbc_buf_all c.msbc_buf).byteAt = window s c from rfl, ← hgood, hhand]
    simp only [Option.bind_some, hkeep]
  · refine ⟨rfl, rfl, hbuf, by simp, fun _ hflags => ?_, blk, rfl, fun _ j hj => (hblk j hj).2⟩
    refine hgood.trans (decide_eq_true (value_le fun x hx => ?_))
    obtain ⟨j, hj, rfl⟩ := List.mem_map.1 hx
    exact hflags j (List.mem_range.1 hj)

/-- A call that meets the condition reads nothing outside of the buffer. -/
theorem process_spec (hoff : s.msbc_find_first_sync = true → s.msbc_offset < frameLen) (hnext : s.next_frame_flag = false)
    (hc : Cond c s) : ∃ sync o total s', Located s (window s c) c.msbc_buf.length sync o total ∧
      (sync = true → o < frameLen) ∧ processDownlinkMsbcFrames cfg c s = some s' ∧ Stepped cfg s c sync o total s' := by
  obtain ⟨sync, o, total, hloc, hl⟩ := @locate_spec (copyIn s.msbc_buf_all c.msbc_buf) s c.msbc_buf.length
    (by simp only [bufSize, frameLen]; rcases hc.1 with h | h <;> omega)
  cases sync with
  | false =>
    obtain ⟨s', hs', h⟩ := @process_unsynced cfg s c o total hnext hc hloc
    exact ⟨false, o, total, s', hl, fun h => absurd h Bool.false_ne_true, hs', h⟩
  | true =>
    have ho : o < frameLen := by
      cases hl with
      | known hs => exact hoff hs
      | found => exact Nat.mod_lt _ (by decide)
    obtain ⟨s', hs', h⟩ := @process_synced cfg s c o total hnext hc ho hl hloc
    exact ⟨true, o, total, s', hl, fun _ => ho, hs', h⟩

end MsbcSync
