import LittleBuddy.Apps.MsbcSync
/-!
# mSBC frames of a stream

A stream is some bytes without a header and then frames of 60 bytes, of which
one may have lost its last byte or be followed by a byte too many. The blocks
that `process_downlink_msbc_frames` hands on are its frames, as long as no call
ends with a frame that is late behind offset 1.
-/
open PlcUtils Runs

namespace MsbcSync

/-! ## Streams -/

/-- Where frame `m` begins, `gap` bytes behind the one before if it is frame `turn`. -/
def frameStart (lead turn gap m : Nat) : Nat := if m < turn then lead + frameLen * m else lead + frameLen * (m - 1) + gap

/-- A frame begins within one byte of its place. -/
theorem frameStart_near (lead m : Nat) {turn gap : Nat} (hturn : 0 < turn) (hgap : gap = 59 ∨ gap = 60 ∨ gap = 61) :
    ∃ d : Int, -1 ≤ d ∧ d ≤ 1 ∧ (d = 1 → gap = 61) ∧ (m = 0 → d = 0) ∧ (frameStart lead turn gap m : Int) = lead + 60 * m + d := by
  unfold frameStart
  simp only [frameLen]
  split
  · exact ⟨0, by omega, by omega, by omega, fun _ => rfl, by omega⟩
  · exact ⟨gap - 60, by omega, by omega, by omega, by omega, by omega⟩

/-- A stream with `lead` bytes in front of its frames. -/
structure Stream where
  byte : Nat → UInt8
  lead : Nat
  turn : Nat
  gap : Nat
  turn_pos : 0 < turn
  gap_near : gap = 59 ∨ gap = 60 ∨ gap = 61
  header : ∀ p, Header byte p ↔ ∃ m, p = frameStart lead turn gap m

namespace Stream

def start (st : Stream) (m : Nat) : Nat := frameStart st.lead st.turn st.gap m

/-- A block is frame `m`, but for its last byte. -/
def Holds (st : Stream) (m : Nat) (pkt : Pkt) : Prop := ∀ i < 59, pkt.byte i = st.byte (st.start m + i)

/-- The calls bring the stream, and have room for each of its frames. -/
structure Feeds (st : Stream) (calls : List Call) : Prop where
  bytes : ∀ i x, (calls.flatMap Call.msbc_buf)[i]? = some x → x = st.byte i
  room : ∀ c ∈ calls, c.frames ≤ c.pcm_len / bytesPerPcmFrame

/-- From the first frame on that is handed on in sync, the blocks are the frames of the stream, one by one; and
there is no later block than that of the first frame's end that is not. -/
structure Aligned (st : Stream) (handed : List (Bool × Pkt)) : Prop where
  follow : ∀ k x, handed[k]? = some x → x.1 = true → Header x.2.byte 0 →
    ∃ m, ∀ l y, handed[k + l]? = some y → st.Holds (m + l) y.2
  comes : ∀ k x, st.lead / frameLen < k → handed[k]? = some x → x.1 = true ∧ Header x.2.byte 0

/-! ## Headers -/

variable {st : Stream}

theorem start_near (st : Stream) (m : Nat) :
    ∃ d : Int, -1 ≤ d ∧ d ≤ 1 ∧ (d = 1 → st.gap = 61) ∧ (m = 0 → d = 0) ∧ (st.start m : Int) = st.lead + 60 * m + d :=
  frameStart_near st.lead m st.turn_pos st.gap_near

theorem lead_le_start (st : Stream) (m : Nat) : st.lead ≤ st.start m := by
  obtain ⟨d, hd₁, hd₂, -, hd₀, hd⟩ := st.start_near m
  omega

theorem start_zero (st : Stream) : st.start 0 = st.lead := by
  unfold start frameStart
  rw [if_pos st.turn_pos]
  rfl

/-- In front of the frames there is no header. -/
theorem not_header_of_lt {p : Nat} (h : p < st.lead) : ¬ Header st.byte p := by
  rintro hp
  obtain ⟨m, rfl⟩ := (st.header p).1 hp
  exact absurd (st.lead_le_start m) (Nat.not_le.2 h)

/-- Near the place of frame `m` there is no header but its own. -/
theorem header_near {p m : Nat} (h₁ : st.lead + 60 * m ≤ p + 1) (h₂ : p ≤ st.lead + 60 * m + 1) :
    Header st.byte p ↔ p = st.start m := by
  refine ⟨fun hp => ?_, fun hp => (st.header p).2 ⟨m, hp⟩⟩
  obtain ⟨m', hm'⟩ := (st.header p).1 hp
  obtain ⟨d, hd₁, hd₂, -, -, hd⟩ := st.start_near m'
  have hp' : p = st.start m' := hm'
  have : m' = m := by omega
  rw [hp', this]

/-- The block of a frame begins with its header. -/
theorem Holds.header {m : Nat} {pkt : Pkt} (h : st.Holds m pkt) : Header pkt.byte 0 := by
  have hheader : Header st.byte (st.start m) := (st.header _).2 ⟨m, rfl⟩
  unfold Header at hheader ⊢
  rwa [h 0 (by decide), h (0 + 1) (by decide), h (0 + 2) (by decide)]

/-! ## Behind the first buffer -/

/-- Bytes behind 60 others. -/
def behindByte (mute : UInt8) (f : Nat → UInt8) (p : Nat) : UInt8 := if p < frameLen then mute else f (p - frameLen)

theorem behindByte_add (mute : UInt8) (f : Nat → UInt8) (q : Nat) : behindByte mute f (frameLen + q) = f q := by
  unfold behindByte
  rw [if_neg (by omega), Nat.add_sub_cancel_left]

theorem header_behind {mute : UInt8} (hmute : mute ≠ 0x01) (f : Nat → UInt8) (p : Nat) :
    Header (behindByte mute f) p ↔ ∃ q, p = frameLen + q ∧ Header f q := by
  by_cases hp : p < frameLen
  · refine ⟨fun h => absurd h.1 ?_, fun ⟨q, hq, _⟩ => by omega⟩
    unfold behindByte
    rwa [if_pos hp]
  · obtain ⟨q, rfl⟩ := Nat.exists_eq_add_of_le (Nat.not_lt.1 hp)
    have hiff : Header (behindByte mute f) (frameLen + q) ↔ Header f q := by
      unfold Header
      rw [behindByte_add, Nat.add_assoc, behindByte_add, Nat.add_assoc, behindByte_add]
    rw [hiff]
    refine ⟨fun h => ⟨q, rfl, h⟩, fun ⟨q', hq', h⟩ => ?_⟩
    rwa [Nat.add_left_cancel hq']

theorem frameStart_add (lead turn gap m : Nat) :
    frameStart (frameLen + lead) turn gap m = frameLen + frameStart lead turn gap m := by
  unfold frameStart
  split <;> omega

/-- The stream behind the 60 bytes that are in the buffer at first. -/
def behind (st : Stream) (mute : UInt8) (hmute : mute ≠ 0x01) : Stream where
  byte := behindByte mute st.byte
  lead := frameLen + st.lead
  turn := st.turn
  gap := st.gap
  turn_pos := st.turn_pos
  gap_near := st.gap_near
  header p := by
    rw [header_behind hmute]
    simp only [st.header, frameStart_add]
    exact ⟨fun ⟨q, hq, m, hm⟩ => ⟨m, hm ▸ hq⟩, fun ⟨m, hm⟩ => ⟨_, hm, m, rfl⟩⟩

theorem behind_start (mute : UInt8) (hmute : mute ≠ 0x01) (m : Nat) : (st.behind mute hmute).start m = frameLen + st.start m :=
  frameStart_add ..

theorem behind_holds {mute : UInt8} {hmute : mute ≠ 0x01} {m : Nat} {pkt : Pkt} :
    (st.behind mute hmute).Holds m pkt ↔ st.Holds m pkt := by
  refine forall₂_congr fun i _ => ?_
  rw [behind_start, Nat.add_assoc]
  exact iff_of_eq (congrArg (pkt.byte i = ·) (behindByte_add ..))

end Stream

/-! ## What a call finds out -/

variable {cfg : Config} {st : Stream} {s s' : St} {c : Call} {r : Nat}

/-- The window of a call is the stream, from byte `60 * r` on. -/
def Sees (st : Stream) (s : St) (c : Call) (r : Nat) : Prop :=
  ∀ i < 60 + c.msbc_buf.length, window s c i = st.byte (60 * r + i)

theorem Sees.header (hw : Sees st s c r) {i : Nat} (hi : i + 2 < 60 + c.msbc_buf.length) :
    Header (window s c) i ↔ Header st.byte (60 * r + i) := by
  unfold Header
  rw [hw i (by omega), hw (i + 1) (by omega), hw (i + 2) hi]
  rfl

theorem sees_of_bytes (hlen : c.msbc_buf.length ≤ 120)
    (hold : ∀ i < 60, s.msbc_buf_all.byteAt i = st.byte (60 * r + i))
    (hnew : ∀ i x, c.msbc_buf[i]? = some x → x = st.byte (60 * r + 60 + i)) : Sees st s c r := by
  intro i hi
  unfold window
  rw [byteAt_copyIn (by simp only [frameLen, bufSize]; omega)]
  simp only [frameLen]
  by_cases h : i < 60
  · rw [if_neg (by omega)]
    exact hold i h
  · obtain ⟨q, rfl⟩ := Nat.exists_eq_add_of_le (Nat.not_lt.1 h)
    rw [if_pos ⟨by omega, hi⟩, Nat.add_sub_cancel_left]
    have hq : q < c.msbc_buf.length := by omega
    rw [List.getD_eq_getElem?_getD, List.getElem?_eq_getElem hq, ← Nat.add_assoc]
    exact hnew q _ (List.getElem?_eq_getElem hq)

/-- The search finds the first frame. -/
theorem located_stream (hw : Sees st s c r)
    (hknown : s.msbc_find_first_sync = true → s.msbc_offset = st.lead % 60 ∧ st.lead < 60 * r)
    (hsearch : s.msbc_find_first_sync = false → 60 * r ≤ st.lead) {sync : Bool} {o total : Nat}
    (hl : Located s (window s c) c.msbc_buf.length sync o total) :
    sync = true ∧ o = st.lead % 60 ∧ st.lead < 60 * r + c.msbc_buf.length ∧ st.lead ≤ 60 * r + total ∨
      sync = false ∧ 60 * r + c.msbc_buf.length ≤ st.lead := by
  have hhas : ∀ i, 60 * r + i = st.lead → i < c.msbc_buf.length → Header (window s c) i := fun i hi hlt =>
    (hw.header (by omega)).2 ((st.header _).2 ⟨0, hi.trans st.start_zero.symm⟩)
  cases hl with
  | known hs =>
    obtain ⟨ho, hlt⟩ := hknown hs
    exact .inl ⟨rfl, ho, by omega, by omega⟩
  | none hs hno =>
    refine .inr ⟨rfl, Nat.not_lt.1 fun hlt => ?_⟩
    have hle := hsearch hs
    exact hno (st.lead - 60 * r) (by omega) (hhas _ (by omega) (by omega))
  | found _ hs hlt hi hno =>
    have hle := hsearch hs
    -- no header comes before the first frame's, and the search stops there
    have hge : st.lead ≤ 60 * r + total := Nat.not_lt.1 fun h => Stream.not_header_of_lt h ((hw.header (by omega)).1 hi)
    have htotal : 60 * r + total = st.lead := by
      by_contra hne
      exact hno (st.lead - 60 * r) (by omega) (hhas _ (by omega) (by omega))
    refine .inl ⟨rfl, ?_, by omega, by omega⟩
    rw [← htotal, Nat.mul_add_mod]

/-- The verdict about a frame is where it begins. -/
theorem verdict_frame (hw : Sees st s c r) {idx m : Nat} (total : Nat) (hidx : 1 ≤ idx)
    (hlt : idx + 3 < 60 + c.msbc_buf.length) (hplace : 60 * r + idx = st.lead + 60 * m) :
    ∃ d : Int, verdict cfg (window s c) total idx = (0, d) ∧ (st.start m : Int) = 60 * r + idx + d := by
  obtain ⟨d, hd₁, hd₂, -, -, hd⟩ := st.start_near m
  refine ⟨d, ?_, by omega⟩
  have hheader : ∀ i, idx ≤ i + 1 → i ≤ idx + 1 → (Header (window s c) i ↔ 60 * r + i = st.start m) := fun i h₁ h₂ =>
    (hw.header (by omega)).trans (Stream.header_near (by omega) (by omega))
  unfold verdict
  simp only [hheader (idx - 1) (by omega) (by omega), hheader idx (by omega) (by omega), hheader (idx + 1) (by omega) (by omega)]
  obtain rfl | rfl | rfl : d = -1 ∨ d = 0 ∨ d = 1 := by omega
  · rw [if_pos (by omega)]
  · rw [if_neg (by omega), if_pos (by omega)]
  · rw [if_neg (by omega), if_neg (by omega), if_pos (by omega)]

/-- In front of the frames there is nothing that ends the sync. -/
theorem verdict_before (hw : Sees st s c r) {idx total : Nat} (hidx : 1 ≤ idx)
    (hlt : idx + 3 < 60 + c.msbc_buf.length) (hplace : 60 * r + idx + 1 < st.lead) (htotal : idx < total) :
    verdict cfg (window s c) total idx = (1, 0) := by
  have hno : ∀ i, i ≤ idx + 1 → ¬ Header (window s c) i := fun i hi h =>
    Stream.not_header_of_lt (by omega) ((hw.header (by omega)).1 h)
  unfold verdict
  rw [if_neg (hno _ (by omega)), if_neg (hno _ (by omega)), if_neg (hno _ (by omega)), if_neg (Nat.not_le.2 htotal)]
  exact ite_self _

/-! ## Calls -/

/-- 1 if the first frame found is left out, where offsets 0 and 1 stand for the next frame. -/
def Stream.skip (st : Stream) : Nat := if st.lead % 60 < 2 then 1 else 0

theorem lowdelay_eq (st : Stream) : lowdelay (st.lead % 60) = st.lead % 60 + 60 * st.skip := by
  unfold lowdelay Stream.skip
  simp only [frameLen]
  split <;> split <;> omega

/-- Block `k` in sync is frame `k`, counted from the first, or comes before the frames. -/
structure Entry (st : Stream) (k : Nat) (x : Bool × Pkt) : Prop where
  sync : st.lead / 60 ≤ k → x.1 = true
  before : x.1 = true → k + st.skip < st.lead / 60 → ¬ Header x.2.byte 0
  frame : x.1 = true → st.lead / 60 ≤ k + st.skip → st.Holds (k + st.skip - st.lead / 60) x.2

/-- The state between two calls, where `st` begins with what was in the buffer at first. -/
structure Follows (st : Stream) (s : St) : Prop where
  next : s.next_frame_flag = false
  buffer : ∀ i < 60, s.msbc_buf_all.byteAt i = st.byte (60 * s.handed.length + i)
  known : s.msbc_find_first_sync = true → s.msbc_offset = st.lead % 60 ∧ st.lead < 60 * s.handed.length
  search : s.msbc_find_first_sync = false → 60 * s.handed.length ≤ st.lead
  entries : ∀ k x, s.handed[k]? = some x → Entry st k x

theorem Follows.offset_lt (hf : Follows st s) (h : s.msbc_find_first_sync = true) : s.msbc_offset < frameLen :=
  (hf.known h).1 ▸ Nat.mod_lt _ (by decide)

/-- Frame `j` of a call in sync: a frame of the stream, or bytes in front of the first. -/
theorem verdict_place (hw : Sees st s c r) (hc : Cond c s) {total j : Nat} (htotal : st.lead ≤ 60 * r + total) (hj : j < c.frames) :
    (st.lead / 60 ≤ r + j + st.skip ∧ ∃ d : Int, verdict cfg (window s c) total (lowdelay (st.lead % 60) + j * frameLen) = (0, d) ∧
      (st.start (r + j + st.skip - st.lead / 60) : Int) = 60 * r + (lowdelay (st.lead % 60) + j * frameLen) + d) ∨
    (r + j + st.skip < st.lead / 60 ∧ verdict cfg (window s c) total (lowdelay (st.lead % 60) + j * frameLen) = (1, 0) ∧
      60 * r + (lowdelay (st.lead % 60) + j * frameLen) < st.lead) := by
  have hlen := Call.length_eq hc.1
  obtain ⟨hlow, hhigh, -⟩ := @lowdelay_bounds (st.lead % 60) (Nat.mod_lt _ (by decide))
  have heq := lowdelay_eq st
  have hdiv := Nat.div_add_mod st.lead 60
  simp only [frameLen] at *
  obtain ⟨low, hlow'⟩ : ∃ low, low = lowdelay (st.lead % 60) := ⟨_, rfl⟩
  rw [← hlow'] at hlow hhigh heq ⊢
  rcases Nat.lt_or_ge (r + j + st.skip) (st.lead / 60) with h | h
  · exact .inr ⟨h, verdict_before hw (by omega) (by omega) (by omega) (by omega), by omega⟩
  · obtain ⟨d, hv, hd⟩ := @verdict_frame cfg st s c r hw (low + j * 60) (r + j + st.skip - st.lead / 60) total (by omega) (by omega)
      (by omega)
    exact .inl ⟨h, d, hv, by omega⟩

/-- The block of a frame in sync. -/
theorem entry_sync {total j : Nat} {pkt : Pkt} (hw : Sees st s c r) (hc : Cond c s)
    (hl : Located s (window s c) c.msbc_buf.length true (st.lead % 60) total) (htotal : st.lead ≤ 60 * r + total) (hj : j < c.frames)
    (hpkt : ∀ p : Nat, (p : Int) = lowdelay (st.lead % 60) +
        (verdict cfg (window s c) total (lowdelay (st.lead % 60) + j * frameLen)).2 + j * frameLen →
      ∀ i < frameLen, pkt.byte i = window s c (p + i)) : Entry st (r + j) (true, pkt) := by
  obtain ⟨p, -, hfresh, hp⟩ := @block_in cfg s c (st.lead % 60) total j hc hl (Nat.mod_lt _ (by decide)) hj
  have hbyte : ∀ i < 59, pkt.byte i = st.byte (60 * r + p + i) := by
    intro i hi
    rw [hpkt p hp i (by simp only [frameLen]; omega), hw _ (by simp only [frameLen] at hfresh; omega), Nat.add_assoc]
  rcases @verdict_place cfg _ _ _ _ hw hc _ _ htotal hj with ⟨hq, d, hv, hd⟩ | ⟨hq, hv, hlt⟩
  · refine ⟨fun _ => rfl, fun _ h => absurd hq (Nat.not_le.2 h), fun _ _ i hi => ?_⟩
    rw [hv] at hp
    rw [hbyte i hi]
    exact congrArg st.byte (by omega)
  · refine ⟨fun _ => rfl, fun _ _ h => ?_, fun _ h => absurd h (Nat.not_le.2 hq)⟩
    rw [hv] at hp
    refine @Stream.not_header_of_lt st (60 * r + p) (by omega) ?_
    unfold Header at h ⊢
    rwa [hbyte 0 (by decide), hbyte (0 + 1) (by decide), hbyte (0 + 2) (by decide)] at h

/-- A call hands on the next frames. -/
theorem follows_step (hf : Follows st s) (hc : Cond c s) (hroom : c.frames ≤ c.pcm_len / bytesPerPcmFrame)
    (hnew : ∀ i x, c.msbc_buf[i]? = some x → x = st.byte (60 * s.handed.length + 60 + i))
    (hs : processDownlinkMsbcFrames cfg c s = some s') : Follows st s' ∧ s'.handed.length = s.handed.length + c.frames := by
  have hlen := Call.length_eq hc.1
  have hframes := hc.frames
  have hw : Sees st s c s.handed.length := sees_of_bytes (by rcases hc.1 with h | h <;> omega) hf.buffer hnew
  obtain ⟨sync, o, total, s'', hl, ho, hs'', h⟩ := @process_spec cfg s c hf.offset_lt hf.next hc
  obtain rfl : s' = s'' := Option.some.inj (hs.symm.trans hs'')
  obtain ⟨blk, hhanded, hblk⟩ := h.blocks
  rw [Nat.min_eq_left hroom] at hhanded
  have hlength : s'.handed.length = s.handed.length + c.frames := by
    rw [hhanded, List.length_append, List.length_map, List.length_range]
  have hfound := located_stream hw hf.known hf.search hl
  have hgood : sync = true → s'.msbc_find_first_sync = true := by
    intro hsync
    refine h.stays hsync fun j hj => ?_
    obtain ⟨-, rfl, -, htotal⟩ | ⟨hno, -⟩ := hfound
    · rcases @verdict_place cfg _ _ _ _ hw hc _ _ htotal hj with ⟨-, d, hv, -⟩ | ⟨-, hv, -⟩
      · rw [hv]
        exact Nat.zero_le _
      · rw [hv]
    · exact absurd hsync (by rw [hno]; decide)
  refine ⟨⟨h.next, fun i hi => ?_, fun hsync => ?_, fun hsync => ?_, fun k x hx => ?_⟩, hlength⟩
  · rw [h.buffer i hi, hw _ (by omega), hlength]
    exact congrArg st.byte (by simp only [frameLen] at hlen; omega)
  · obtain ⟨-, rfl, hlt, -⟩ | ⟨hno, -⟩ := hfound
    · exact ⟨h.offset, by simp only [frameLen] at hlen; omega⟩
    · exact absurd (h.sync_of hsync) (by rw [hno]; decide)
  · obtain ⟨hyes, -⟩ | ⟨-, hle⟩ := hfound
    · exact absurd (hgood hyes) (by rw [hsync]; decide)
    · simp only [frameLen] at hlen
      omega
  · have hlt : k < s'.handed.length := (List.getElem?_eq_some_iff.1 hx).1
    rw [hhanded] at hx
    rcases Nat.lt_or_ge k s.handed.length with hk | hk
    · rw [List.getElem?_append_left hk] at hx
      exact hf.entries k x hx
    · obtain ⟨j, rfl⟩ := Nat.exists_eq_add_of_le hk
      have hj : j < c.frames := by omega
      rw [List.getElem?_append_right hk, Nat.add_sub_cancel_left, List.getElem?_map, List.getElem?_range hj] at hx
      cases hx
      obtain ⟨rfl, rfl, -, htotal⟩ | ⟨rfl, hle⟩ := hfound
      · rw [hgood rfl]
        exact entry_sync hw hc hl htotal hj (hblk rfl j hj)
      · have hno : s'.msbc_find_first_sync = false := Bool.eq_false_iff.2 fun h' => absurd (h.sync_of h') (by decide)
        rw [hno]
        exact ⟨fun hq => by simp only [frameLen] at hlen; omega, fun h => absurd h Bool.false_ne_true, fun h => absurd h Bool.false_ne_true⟩

/-! ## Streams that there are -/

/-- A frame begins at `p`. -/
def Starts (lead turn gap p : Nat) : Prop := p = frameStart lead turn gap ((p + 1 - lead) / frameLen)

instance (lead turn gap p : Nat) : Decidable (Starts lead turn gap p) := inferInstanceAs (Decidable (_ = _))

/-- A header at the start of each frame, and zeros. -/
def plainByte (lead turn gap p : Nat) : UInt8 :=
  if Starts lead turn gap p then 0x01
  else if 1 ≤ p ∧ Starts lead turn gap (p - 1) then 0x08
  else if 2 ≤ p ∧ Starts lead turn gap (p - 2) then 0xad
  else 0

section Plain
variable {lead turn gap : Nat} (hturn : 0 < turn) (hgap : gap = 59 ∨ gap = 60 ∨ gap = 61)

include hturn hgap

theorem starts_iff (p : Nat) : Starts lead turn gap p ↔ ∃ m, p = frameStart lead turn gap m := by
  refine ⟨fun h => ⟨_, h⟩, ?_⟩
  rintro ⟨m, hm⟩
  obtain ⟨d, hd₁, hd₂, -, hd₀, hd⟩ := frameStart_near lead m hturn hgap
  unfold Starts
  simp only [frameLen]
  rwa [show (p + 1 - lead) / 60 = m by omega]

theorem not_starts_behind {p i : Nat} (h : Starts lead turn gap p) (hi : 0 < i) (hi' : i ≤ 2) : ¬ Starts lead turn gap (p + i) := by
  intro h'
  obtain ⟨m, hm⟩ := (starts_iff hturn hgap p).1 h
  obtain ⟨m', hm'⟩ := (starts_iff hturn hgap (p + i)).1 h'
  obtain ⟨d, hd₁, hd₂, -, -, hd⟩ := frameStart_near lead m hturn hgap
  obtain ⟨d', hd₁', hd₂', -, -, hd'⟩ := frameStart_near lead m' hturn hgap
  have : m = m' := by omega
  subst this
  omega

theorem header_plain (p : Nat) : Header (plainByte lead turn gap) p ↔ ∃ m, p = frameStart lead turn gap m := by
  rw [← starts_iff hturn hgap]
  refine ⟨fun h => ?_, fun h => ⟨if_pos h, ?_, ?_⟩⟩
  · have h₀ := h.1
    unfold plainByte at h₀
    by_contra hno
    rw [if_neg hno] at h₀
    split_ifs at h₀ <;> cases h₀
  · unfold plainByte
    rw [if_neg (not_starts_behind hturn hgap h (by decide) (by decide)), if_pos ⟨by omega, h⟩]
    rfl
  · unfold plainByte
    rw [if_neg (not_starts_behind hturn hgap h (by decide) (by decide)),
      if_neg fun h' => not_starts_behind hturn hgap h (by decide) (by decide) h'.2, if_pos ⟨by omega, h⟩]

end Plain

namespace Stream

/-- For each number of bytes in front, and each place of the odd frame, there is a stream. -/
def plain (lead turn gap : Nat) (hturn : 0 < turn) (hgap : gap = 59 ∨ gap = 60 ∨ gap = 61) : Stream :=
  ⟨plainByte lead turn gap, lead, turn, gap, hturn, hgap, header_plain hturn hgap⟩

/-- Calls that bring the stream from byte `n` on. -/
def cut (st : Stream) : Nat → List Nat → List Call
  | _, [] => []
  | n, len :: lens =>
    ⟨(List.range len).map fun i => st.byte (n + i), len / frameLen * bytesPerPcmFrame, fun _ => true⟩ :: st.cut (n + len) lens

theorem bytes_cut (st : Stream) (lens : List Nat) (n i : Nat) (x : UInt8)
    (hx : ((st.cut n lens).flatMap Call.msbc_buf)[i]? = some x) : x = st.byte (n + i) := by
  induction lens generalizing n i with
  | nil => cases hx
  | cons len lens ih =>
    rw [cut, List.flatMap_cons] at hx
    rcases Nat.lt_or_ge i len with hi | hi
    · rw [List.getElem?_append_left (by simpa using hi), List.getElem?_map, List.getElem?_range hi] at hx
      exact (Option.some.inj hx).symm
    · rw [List.getElem?_append_right (by simpa using hi), List.length_map, List.length_range] at hx
      rw [ih _ _ hx, Nat.add_assoc, Nat.add_sub_cancel' hi]

theorem feeds_cut (st : Stream) (lens : List Nat) : st.Feeds (st.cut 0 lens) := by
  refine ⟨fun i x hx => (st.bytes_cut lens 0 i x hx).trans (by rw [Nat.zero_add]), ?_⟩
  generalize 0 = n
  induction lens generalizing n with
  | nil => exact fun c hc => by cases hc
  | cons len lens ih =>
    intro c hc
    rcases List.mem_cons.1 hc with rfl | hc
    · unfold Call.frames
      simp only [List.length_map, List.length_range]
      exact (Nat.mul_div_cancel _ (by decide)).ge
    · exact ih _ c hc

end Stream

/-! ## Runs -/

theorem Stream.Feeds.of_append {calls : List Call} (hf : st.Feeds (calls ++ [c])) :
    st.Feeds calls ∧ c.frames ≤ c.pcm_len / bytesPerPcmFrame ∧
      ∀ i x, c.msbc_buf[i]? = some x → x = st.byte ((calls.flatMap Call.msbc_buf).length + i) := by
  have hbytes := hf.bytes
  rw [List.flatMap_append, List.flatMap_singleton] at hbytes
  refine ⟨⟨fun i x hx => hbytes i x ?_, fun c hc => hf.room c (List.mem_append_left _ hc)⟩,
    hf.room c (List.mem_append_right _ (List.mem_singleton.2 rfl)), fun i x hx => hbytes _ x ?_⟩
  · rw [List.getElem?_append_left (List.getElem?_eq_some_iff.1 hx).1]
    exact hx
  · rw [List.getElem?_append_right (Nat.le_add_right ..), Nat.add_sub_cancel_left]
    exact hx

/-- The next call's bytes, where as many as there are blocks have come before. -/
theorem Stream.Feeds.next {calls : List Call} (hf : st.Feeds (calls ++ [c])) {n : Nat}
    (hcount : (calls.flatMap Call.msbc_buf).length = 60 * n) (mute : UInt8) (hmute : mute ≠ 0x01) (i : Nat) (x : UInt8)
    (hx : c.msbc_buf[i]? = some x) : x = (st.behind mute hmute).byte (60 * n + 60 + i) := by
  rw [hf.of_append.2.2 i x hx, hcount, Nat.add_comm (60 * n) 60, Nat.add_assoc]
  exact (Stream.behindByte_add ..).symm

/-- Behind the first buffer, the calls follow the stream. -/
theorem follows_of_run {calls : List Call} (hmute : cfg.mutePattern ≠ 0x01)
    (h : Run (processDownlinkMsbcFrames cfg) Cond (Init cfg) s calls) (hf : st.Feeds calls) :
    Follows (st.behind cfg.mutePattern hmute) s ∧ (calls.flatMap Call.msbc_buf).length = 60 * s.handed.length := by
  induction h with
  | nil h =>
    obtain ⟨o, rfl⟩ := h
    refine ⟨⟨rfl, fun i hi => ?_, fun h => absurd h Bool.false_ne_true, fun _ => Nat.zero_le _, fun k x hx => by cases hx⟩, rfl⟩
    change (Vector.replicate bufSize cfg.mutePattern)[i]?.getD 0 = Stream.behindByte cfg.mutePattern st.byte (0 + i)
    rw [Nat.zero_add, Vector.getElem?_replicate, if_pos (by simp only [bufSize, frameLen]; omega)]
    exact (if_pos hi).symm
  | snoc _ hc hs ih =>
    obtain ⟨hbefore, hroom, -⟩ := hf.of_append
    obtain ⟨hfollows, hcount⟩ := ih hbefore
    obtain ⟨hfollows', hcount'⟩ := follows_step hfollows hc hroom (hf.next hcount _ hmute) hs
    refine ⟨hfollows', ?_⟩
    rw [List.flatMap_append, List.flatMap_singleton, List.length_append, hcount, hcount', Nat.mul_add]
    exact congrArg _ (Call.length_eq hc.1)

/-- What the calls hand on when they follow the stream. -/
theorem Follows.aligned {mute : UInt8} {hmute : mute ≠ 0x01} (hf : Follows (st.behind mute hmute) s) : st.Aligned s.handed := by
  have hq : (st.behind mute hmute).lead / 60 = st.lead / 60 + 1 := Nat.add_div_left st.lead (by decide)
  have hskip : (st.behind mute hmute).skip ≤ 1 := by
    unfold Stream.skip
    split <;> decide
  refine ⟨fun k x hx hsync hheader => ?_, fun k x hk hx => ?_⟩
  · have hle : (st.behind mute hmute).lead / 60 ≤ k + (st.behind mute hmute).skip :=
      Nat.not_lt.1 fun h => (hf.entries k x hx).before hsync h hheader
    refine ⟨k + (st.behind mute hmute).skip - (st.behind mute hmute).lead / 60, fun l y hy => ?_⟩
    have hentry := hf.entries (k + l) y hy
    have hy' : y.1 = true := by
      rcases Nat.eq_zero_or_pos l with rfl | hl
      · rw [Option.some.inj (hy.symm.trans hx)]
        exact hsync
      · exact hentry.sync (by omega)
    have hholds := Stream.behind_holds.1 (hentry.frame hy' (by omega))
    rwa [show k + l + (st.behind mute hmute).skip - (st.behind mute hmute).lead / 60 =
      k + (st.behind mute hmute).skip - (st.behind mute hmute).lead / 60 + l by omega] at hholds
  · have hk' : st.lead / 60 < k := hk
    have hentry := hf.entries k x hx
    have hsync := hentry.sync (by omega)
    have hholds := Stream.behind_holds.1 (hentry.frame hsync (by omega))
    exact ⟨hsync, hholds.header⟩

/-- Whatever the calls bring, the offset stays within a frame. -/
theorem offset_of_run {calls : List Call} (h : Run (processDownlinkMsbcFrames cfg) Cond (Init cfg) s calls) :
    (s.msbc_find_first_sync = true → s.msbc_offset < frameLen) ∧ s.next_frame_flag = false := by
  refine h.inv (fun s => (s.msbc_find_first_sync = true → s.msbc_offset < frameLen) ∧ s.next_frame_flag = false) ?_ ?_
  · rintro _ ⟨o, rfl⟩
    exact ⟨fun h => absurd h Bool.false_ne_true, rfl⟩
  · intro c s s' hs hc hstep
    obtain ⟨sync, o, total, s'', -, ho, hs'', h⟩ := @process_spec cfg s c hs.1 hs.2 hc
    obtain rfl : s' = s'' := Option.some.inj (hstep.symm.trans hs'')
    exact ⟨fun hsync => h.offset ▸ ho (h.sync_of hsync), h.next⟩

/-- A stream has no late frame behind offset 1, unless its frames begin there and one of them has a byte too many. -/
theorem not_late (hw : Sees st s c r) (hlen : c.msbc_buf.length = 60 * c.frames)
    (hknown : s.msbc_find_first_sync = true → s.msbc_offset = st.lead % 60 ∧ st.lead < 60 * r)
    (hsearch : s.msbc_find_first_sync = false → 60 * r ≤ st.lead) (h : st.lead % 60 ≠ 1 ∨ st.gap ≠ 61) : ¬ Late s c := by
  rintro ⟨hb, hheader⟩
  have hlead : st.lead % 60 = 1 := by
    rcases hb with ⟨hs, ho⟩ | ⟨hs, i, hlt, ho, hi, hno⟩
    · rw [← (hknown hs).1, ho]
    · obtain ⟨-, ho', -⟩ | ⟨hno', -⟩ := located_stream hw hknown hsearch (.found i hs hlt hi hno)
      · rw [← ho', ← ho]
      · cases hno'
  obtain ⟨m, hm⟩ := (st.header _).1 ((hw.header (by omega)).1 hheader)
  obtain ⟨d, hd₁, hd₂, hgap, -, hd⟩ := st.start_near m
  have hm' : 60 * r + (c.msbc_buf.length + 2) = st.start m := hm
  rcases h with h | h
  · exact h hlead
  · exact h (hgap (by omega))

/-- Such a stream can be brought in any calls. -/
theorem exists_run_of_feeds (hmute : cfg.mutePattern ≠ 0x01) (h : st.lead % 60 ≠ 1 ∨ st.gap ≠ 61) (calls : List Call)
    (hlens : ∀ c ∈ calls, c.msbc_buf.length = 60 ∨ c.msbc_buf.length = 120) (hf : st.Feeds calls) :
    ∃ s, Run (processDownlinkMsbcFrames cfg) Cond (Init cfg) s calls := by
  induction calls using List.reverseRecOn with
  | nil => exact ⟨_, .nil ⟨0, rfl⟩⟩
  | append_singleton calls c ih =>
    have hbefore := hf.of_append.1
    obtain ⟨s, hrun⟩ := ih (fun c hc => hlens c (List.mem_append_left _ hc)) hbefore
    obtain ⟨hfollows, hcount⟩ := follows_of_run hmute hrun hbefore
    have hlen := hlens c (List.mem_append_right _ (List.mem_singleton.2 rfl))
    have hw : Sees (st.behind cfg.mutePattern hmute) s c s.handed.length :=
      sees_of_bytes (by omega) hfollows.buffer (hf.next hcount _ hmute)
    have hlead : (st.behind cfg.mutePattern hmute).lead % 60 = st.lead % 60 := Nat.add_mod_left ..
    have hc : Cond c s := ⟨hlen, not_late hw (Call.length_eq hlen) hfollows.known hfollows.search (by rwa [hlead])⟩
    obtain ⟨_, _, _, s', -, -, hs', -⟩ := @process_spec cfg s c hfollows.offset_lt hfollows.next hc
    exact ⟨s', hrun.snoc hc hs'⟩

/-- In every run without a late last frame behind offset 1, no call reads outside of the buffer, and the blocks
handed on are the frames of the stream. -/
theorem aligned_of_run (hcfg : cfg.mutePattern = 0x55 ∨ cfg.mutePattern = 0x00) {calls : List Call}
    (h : Run (processDownlinkMsbcFrames cfg) Cond (Init cfg) s calls) :
    (∀ c, Cond c s → (processDownlinkMsbcFrames cfg c s).isSome) ∧ ∀ st : Stream, st.Feeds calls → st.Aligned s.handed := by
  refine ⟨fun c hc => ?_, fun st hf => ?_⟩
  · obtain ⟨hoff, hnext⟩ := offset_of_run h
    obtain ⟨_, _, _, s', -, -, hs', -⟩ := @process_spec cfg s c hoff hnext hc
    rw [hs']
    rfl
  · have hmute : cfg.mutePattern ≠ 0x01 := by
      rcases hcfg with h | h <;> rw [h] <;> decide
    exact (follows_of_run hmute h hf).1.aligned

/-- A byte is lost behind the first frame; a call brings both. -/
theorem aligned_of_run_lost : ∃ s, Run (processDownlinkMsbcFrames ⟨0x55, false⟩) Cond (Init ⟨0x55, false⟩) s
    ((Stream.plain 0 1 59 (by decide) (by decide)).cut 0 [120]) ∧ s.handed.length = 2 ∧
      (Stream.plain 0 1 59 (by decide) (by decide)).Aligned s.handed := by
  obtain ⟨s, hrun, hlen⟩ := exists_run_of_check (processDownlinkMsbcFrames ⟨0x55, false⟩) Cond (Init ⟨0x55, false⟩)
    (some ⟨.replicate _ 0x55, false, 0, false, packetLossDetectionInit, []⟩)
    ((Stream.plain 0 1 59 (by decide) (by decide)).cut 0 [120]) (fun s => s.handed.length == 2)
    (fun _ h => ⟨0, (Option.some.inj h).symm⟩) (by decide +kernel)
  exact ⟨s, hrun, eq_of_beq hlen, (aligned_of_run (.inl rfl) hrun).2 _ (Stream.feeds_cut ..)⟩

/-- The first frame is at 1, and the second is one byte late: it ends behind the buffer. -/
theorem late_frame_past_the_end : (Stream.plain 1 1 61 (by decide) (by decide)).Feeds
    ((Stream.plain 1 1 61 (by decide) (by decide)).cut 0 [120]) ∧
      ∀ c ∈ (Stream.plain 1 1 61 (by decide) (by decide)).cut 0 [120], c.msbc_buf.length = 120 ∧ ∃ s, Init ⟨0x55, false⟩ s ∧
        processDownlinkMsbcFrames ⟨0x55, false⟩ c s = none := by
  refine ⟨Stream.feeds_cut .., ?_⟩
  intro c hc
  obtain rfl := List.mem_singleton.1 hc
  refine ⟨by decide +kernel, _, ⟨0, rfl⟩, ?_⟩
  have hnone : (processDownlinkMsbcFrames ⟨0x55, false⟩ ⟨(List.range 120).map fun i => plainByte 1 1 61 (0 + i), 480, fun _ => true⟩
    ⟨.replicate _ 0x55, false, 0, false, packetLossDetectionInit, []⟩).isNone = true := by decide +kernel
  exact Option.isNone_iff_eq_none.1 hnone

end MsbcSync
