import LittleBuddy.Lib.Ring
import LittleBuddy.Lib.Runs
/-!
# The stream buffer

`services/tota/tota_buffer_manager.cpp`: a ring with a read and a write position
and two counters that are kept beside them. Every function holds the mutex
throughout. `StreamBuf.Holds` says which bytes the ring holds.
-/
open Ring Runs

namespace Tota.Stream

/-! ## The code -/

/-- `TOTA_STREAM_BUF_SIZE`. -/
def totaStreamBufSize : Nat := 24 * 1024 * 2

theorem totaStreamBufSize_pos : 0 < totaStreamBufSize := by decide

/-- `stream_buf_t`. -/
structure StreamBuf where
  buf : Int → UInt8
  dataSize : Nat
  availableSpace : Nat
  writePos : Nat
  readPos : Nat
  flushBytes : Nat

/-- `tota_stream_buffer_init`. -/
def bufferInit (buf : Int → UInt8) : StreamBuf := ⟨buf, 0, totaStreamBufSize, 0, 0, 0⟩

/-- `tota_stream_buffer_write`. -/
def bufferWrite (s : StreamBuf) (buf : List UInt8) : Bool × StreamBuf :=
  let bufLen := buf.length
  if s.availableSpace > bufLen then
    let s :=
      if s.writePos + bufLen ≤ totaStreamBufSize then
        let writePos := s.writePos + bufLen
        { s with buf := store s.buf s.writePos buf, writePos := if writePos = totaStreamBufSize then 0 else writePos }
      else
        let part1 := totaStreamBufSize - s.writePos
        { s with
          buf := store (store s.buf s.writePos (buf.take part1)) 0 (buf.drop part1), writePos := bufLen - part1 }
    (true, { s with dataSize := s.dataSize + bufLen, availableSpace := s.availableSpace - bufLen })
  else (false, s)

/-- What a read hands out. -/
structure ReadOut where
  rbuf : List UInt8
  flushbytes : Option Nat

/-- `tota_stream_buffer_read`, with a pointer for the flushed bytes or without. -/
def bufferRead (s : StreamBuf) (readSize : Nat) (flushbytes : Bool) : Option ReadOut × StreamBuf :=
  if readSize < s.dataSize then
    let (rbuf, readPos) :=
      if s.readPos + readSize ≤ totaStreamBufSize then
        let readPos := s.readPos + readSize
        (span s.buf s.readPos readSize, if readPos = totaStreamBufSize then 0 else readPos)
      else
        let part1 := totaStreamBufSize - s.readPos
        (span s.buf s.readPos part1 ++ span s.buf 0 (readSize - part1), readSize - part1)
    let s := { s with readPos, dataSize := s.dataSize - readSize, availableSpace := s.availableSpace + readSize }
    if flushbytes then (some ⟨rbuf, some s.flushBytes⟩, { s with flushBytes := 0 }) else (some ⟨rbuf, none⟩, s)
  else (none, s)

/-- `tota_stream_buffer_flush`. -/
def bufferFlush (s : StreamBuf) : StreamBuf := ⟨s.buf, 0, totaStreamBufSize, 0, 0, s.dataSize⟩

/-- `tota_stream_buffer_clean`. -/
def bufferClean (s : StreamBuf) : StreamBuf := ⟨s.buf, 0, totaStreamBufSize, 0, 0, 0⟩

/-! ## The bytes that the ring holds -/

/-- The two counters and the two positions agree, and the bytes are `l`. -/
structure StreamBuf.Holds (s : StreamBuf) (l : List UInt8) : Prop where
  dataSize : s.dataSize = l.length
  availableSpace : s.dataSize + s.availableSpace = totaStreamBufSize
  room : 0 < s.availableSpace
  readPos : s.readPos < totaStreamBufSize
  writePos : (s.writePos : Int) = wrap totaStreamBufSize (s.readPos + l.length)
  content : Ring.content s.buf totaStreamBufSize s.readPos l.length = l

variable {s : StreamBuf} {l : List UInt8}

theorem holds_nil (buf : Int → UInt8) (flushBytes : Nat) :
    (⟨buf, 0, totaStreamBufSize, 0, 0, flushBytes⟩ : StreamBuf).Holds [] :=
  ⟨rfl, Nat.zero_add _, totaStreamBufSize_pos, totaStreamBufSize_pos,
    (wrap_of_lt (Int.natCast_pos.2 totaStreamBufSize_pos)).symm, rfl⟩

theorem StreamBuf.Holds.writePos_eq (h : s.Holds l) : s.writePos = (s.readPos + s.dataSize) % totaStreamBufSize := by
  obtain ⟨hdata, havail, hroom, hread, hwrite, -⟩ := h
  unfold wrap at hwrite
  split_ifs at hwrite with hlt
  · rw [Nat.mod_eq_of_lt (by omega)]
    omega
  · rw [Nat.mod_eq_sub_mod (by omega), Nat.mod_eq_of_lt (by omega)]
    omega

/-- An accepted write appends its bytes; else the ring is as it was. -/
theorem StreamBuf.Holds.write (h : s.Holds l) (buf : List UInt8) :
    ((bufferWrite s buf).1 = true ∧ (bufferWrite s buf).2.Holds (l ++ buf)) ∨ bufferWrite s buf = (false, s) := by
  obtain ⟨hdata, havail, hroom, hread, hwrite, hcontent⟩ := h
  rw [bufferWrite]
  by_cases hfits : s.availableSpace > buf.length
  case neg => exact .inr (if_neg hfits)
  rw [if_pos hfits]
  refine .inl ⟨rfl, ?_⟩
  have hw : (s.writePos = s.readPos + l.length ∧ s.readPos + l.length < totaStreamBufSize) ∨
      (s.writePos + totaStreamBufSize = s.readPos + l.length) := by
    unfold wrap at hwrite
    split_ifs at hwrite <;> omega
  have happ : ∀ m' : Int → UInt8, Written s.buf m' totaStreamBufSize s.writePos buf →
      Ring.content m' totaStreamBufSize s.readPos (l ++ buf).length = l ++ buf := by
    intro m' hm
    rw [hwrite] at hm
    rw [List.length_append, content_written hm (by omega) (by omega), hcontent]
  dsimp only
  split
  · refine ⟨?_, ?_, ?_, hread, ?_, happ _ (written_store (by omega))⟩
    · simp only [List.length_append, hdata]
    · dsimp only
      omega
    · dsimp only
      omega
    · dsimp only
      rw [List.length_append]
      unfold wrap
      split_ifs <;> omega
  · refine ⟨?_, ?_, ?_, hread, ?_, happ _ (written_stores (by omega) (by omega) (by omega))⟩
    · simp only [List.length_append, hdata]
    · dsimp only
      omega
    · dsimp only
      omega
    · dsimp only
      rw [List.length_append]
      unfold wrap
      split_ifs <;> omega

/-- The ring without its first bytes. -/
theorem StreamBuf.Holds.drop (h : s.Holds l) {n : Nat} (hn : n ≤ l.length) (readPos flushBytes : Nat)
    (hr : (readPos : Int) = wrap totaStreamBufSize (s.readPos + n)) :
    (⟨s.buf, s.dataSize - n, s.availableSpace + n, s.writePos, readPos, flushBytes⟩ : StreamBuf).Holds
      (l.drop n) := by
  obtain ⟨hdata, havail, hroom, hread, hwrite, hcontent⟩ := h
  have hdrop := drop_content s.buf totaStreamBufSize s.readPos l.length n (by omega)
  rw [hcontent, ← hr] at hdrop
  refine ⟨?_, ?_, ?_, ?_, ?_, ?_⟩
  · simp only [List.length_drop, hdata]
  · dsimp only
    omega
  · dsimp only
    omega
  · dsimp only
    unfold wrap at hr
    split_ifs at hr <;> omega
  · simp only [hr, hwrite, List.length_drop]
    unfold wrap
    split_ifs <;> omega
  · rw [List.length_drop]
    exact hdrop.symm

/-- An accepted read hands out the first bytes and takes them off. -/
theorem StreamBuf.Holds.read (h : s.Holds l) (readSize : Nat) (flushbytes : Bool) :
    (∃ out, (bufferRead s readSize flushbytes).1 = some out ∧ out.rbuf = l.take readSize ∧
      (bufferRead s readSize flushbytes).2.Holds (l.drop readSize)) ∨
    bufferRead s readSize flushbytes = (none, s) := by
  have hdata := h.dataSize
  have havail := h.availableSpace
  have hread := h.readPos
  rw [bufferRead]
  by_cases hfits : readSize < s.dataSize
  case neg => exact .inr (if_neg hfits)
  rw [if_pos hfits]
  have hlen : readSize ≤ l.length := by omega
  have htake := take_content s.buf totaStreamBufSize s.readPos readSize hlen
  rw [h.content] at htake
  have hdrop := fun readPos flushBytes => h.drop hlen readPos flushBytes
  refine .inl ?_
  dsimp only
  by_cases hwrap : s.readPos + readSize ≤ totaStreamBufSize
  · have hspan : Ring.content s.buf totaStreamBufSize s.readPos readSize = span s.buf s.readPos readSize :=
      content_eq_span (by omega)
    rw [if_pos hwrap]
    have hpos : ((if s.readPos + readSize = totaStreamBufSize then 0 else s.readPos + readSize : Nat) : Int) =
        wrap totaStreamBufSize (s.readPos + readSize) := by
      unfold wrap
      split_ifs <;> omega
    split
    · exact ⟨_, rfl, by rw [htake, hspan], hdrop _ 0 hpos⟩
    · exact ⟨_, rfl, by rw [htake, hspan], hdrop _ s.flushBytes hpos⟩
  · have hspans : Ring.content s.buf totaStreamBufSize s.readPos readSize =
        span s.buf s.readPos (totaStreamBufSize - s.readPos) ++
          span s.buf 0 (readSize - (totaStreamBufSize - s.readPos)) :=
      content_eq_spans (by omega) (by omega)
    rw [if_neg hwrap]
    have hpos : ((readSize - (totaStreamBufSize - s.readPos) : Nat) : Int) =
        wrap totaStreamBufSize (s.readPos + readSize) := by
      unfold wrap
      split_ifs <;> omega
    split
    · exact ⟨_, rfl, by rw [htake, hspans], hdrop _ 0 hpos⟩
    · exact ⟨_, rfl, by rw [htake, hspans], hdrop _ s.flushBytes hpos⟩

/-! ## Runs -/

/-- A call of one of the four functions. -/
inductive Event where
  | write (buf : List UInt8)
  | read (readSize : Nat) (flushbytes : Bool)
  | flush
  | clean

/-- The ring; the bytes accepted and the bytes read since the last flush or
clean, and both for each time before. -/
structure Sys where
  ring : StreamBuf
  accepted : List UInt8
  out : List UInt8
  past : List (List UInt8 × List UInt8)

def step (e : Event) (x : Sys) : Option Sys :=
  match e with
  | .write buf =>
    let r := bufferWrite x.ring buf
    some { x with ring := r.2, accepted := if r.1 then x.accepted ++ buf else x.accepted }
  | .read readSize flushbytes =>
    let r := bufferRead x.ring readSize flushbytes
    some { x with ring := r.2, out := x.out ++ (r.1.map ReadOut.rbuf).getD [] }
  | .flush => some ⟨bufferFlush x.ring, [], [], x.past ++ [(x.accepted, x.out)]⟩
  | .clean => some ⟨bufferClean x.ring, [], [], x.past ++ [(x.accepted, x.out)]⟩

/-- The bytes from `readPos` on. -/
def StreamBuf.content (s : StreamBuf) : List UInt8 := Ring.content s.buf totaStreamBufSize s.readPos s.dataSize

theorem StreamBuf.Holds.content_eq (h : s.Holds l) : s.content = l := by
  rw [StreamBuf.content, h.dataSize, h.content]

/-- After `tota_stream_buffer_init`. -/
def Start (x : Sys) : Prop := ∃ buf, x = ⟨bufferInit buf, [], [], []⟩

/-- The ring holds what was accepted and not yet read, and before each flush or
clean the bytes read were the first of the accepted ones. -/
structure Inv (x : Sys) : Prop where
  holds : ∃ l, x.ring.Holds l ∧ x.accepted = x.out ++ l
  past : ∀ p ∈ x.past, p.2 <+: p.1

variable {x x' : Sys}

theorem Inv.read_first (h : Inv x) : x.out <+: x.accepted := by
  obtain ⟨l, -, hl⟩ := h.holds
  exact ⟨l, hl.symm⟩

theorem Start.inv (h : Start x) : Inv x := by
  obtain ⟨buf, rfl⟩ := h
  exact ⟨⟨[], holds_nil buf 0, rfl⟩, by simp⟩

/-- Flush and clean end a time. -/
theorem Inv.reset (h : Inv x) (flushBytes : Nat) :
    Inv ⟨⟨x.ring.buf, 0, totaStreamBufSize, 0, 0, flushBytes⟩, [], [], x.past ++ [(x.accepted, x.out)]⟩ := by
  refine ⟨⟨[], holds_nil _ _, rfl⟩, fun p hp => ?_⟩
  rcases List.mem_append.1 hp with hp | hp
  · exact h.past p hp
  · obtain rfl := List.mem_singleton.1 hp
    exact h.read_first

theorem Inv.step (e : Event) (h : Inv x) (hs : step e x = some x') : Inv x' := by
  obtain ⟨l, hl, haccepted⟩ := h.holds
  cases e with
  | write buf =>
    obtain rfl := Option.some.inj hs
    rcases hl.write buf with ⟨htrue, hl'⟩ | hsame
    · refine ⟨⟨l ++ buf, hl', ?_⟩, h.past⟩
      simp [htrue, haccepted]
    · exact ⟨⟨l, by rw [hsame]; exact hl, by simp [hsame, haccepted]⟩, h.past⟩
  | read readSize flushbytes =>
    obtain rfl := Option.some.inj hs
    rcases hl.read readSize flushbytes with ⟨out, hout, hrbuf, hl'⟩ | hsame
    · refine ⟨⟨l.drop readSize, hl', ?_⟩, h.past⟩
      simp [hout, hrbuf, haccepted]
    · exact ⟨⟨l, by rw [hsame]; exact hl, by simp [hsame, haccepted]⟩, h.past⟩
  | flush =>
    obtain rfl := Option.some.inj hs
    exact h.reset x.ring.dataSize
  | clean =>
    obtain rfl := Option.some.inj hs
    exact h.reset 0

/-- Every byte accepted was read or is still in the ring. -/
def EachRead (x : Sys) : Prop :=
  (x.past.map Prod.fst).flatten ++ x.accepted = (x.past.map Prod.snd).flatten ++ (x.out ++ x.ring.content)

instance (x : Sys) : Decidable (EachRead x) := inferInstanceAs (Decidable (_ = _))

/-- Three bytes, of which one is read before the others are flushed. -/
def flushed : Sys := ⟨⟨store (fun _ => 0) 0 [1, 2, 3], 0, totaStreamBufSize, 0, 0, 2⟩, [], [], [([1, 2, 3], [1])]⟩

theorem run_flushed : Run step (fun _ _ => True) Start flushed [.write [1, 2, 3], .read 1 false, .flush] := by
  have hstart : Run step (fun _ _ => True) Start ⟨bufferInit fun _ => 0, [], [], []⟩ [] := .nil ⟨_, rfl⟩
  exact ((hstart.snoc trivial rfl).snoc trivial rfl).snoc trivial rfl

end Tota.Stream
