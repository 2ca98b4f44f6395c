import LittleBuddy.Lib.Framing
import Mathlib.Algebra.Group.Nat.Defs
import Mathlib.Data.List.GetD
/-!
# The Fast Pair message stream

`fp_rfcomm_data_accumulator` of `services/bt_app/app_fp_rfcomm.cpp` collects the
bytes of RFCOMM packets in a buffer and hands each message that is complete to
`fp_rfcomm_data_handler`. A message is a group, a code, a length of 16 bits and
as many bytes of data.
-/
open Framing

namespace BtApp.MessageStream

/-! ## The code -/

/-- `FP_ACCUMULATED_DATA_BUF_SIZE` and `FP_MESSAGE_RESERVED_LEN`. -/
abbrev bufSize : Nat := 128
abbrev reservedLen : Nat := 4

/-- `fp_rfcomm_service.isConnected` and the first `fp_accumulated_data_size`
bytes of `fp_accumulated_data_buf`. -/
structure State where
  isConnected : Bool
  accumulated : List UInt8

/-- `dataLenHighByte` and `dataLenLowByte` of the message at the start of the buffer. -/
def dataLen (buf : List UInt8) : Nat := (buf.getD 2 0).toNat * 256 + (buf.getD 3 0).toNat

/-- `msgTotalLen`, a `uint16_t`. -/
def msgTotalLen (buf : List UInt8) : Nat := (dataLen buf + reservedLen) % 2 ^ 16

/-- How a call ends; `handled` are the buffers of the calls of `fp_rfcomm_data_handler`. -/
inductive Result where
  | returned (s : State) (handled : List (List UInt8))
  | assertion

/-- The loop of `fp_rfcomm_data_accumulator`; `none` when the fuel is used up. -/
def accumulatorLoop : Nat → State → List (List UInt8) → Option Result
  | 0, _, _ => none
  | fuel + 1, s, handled =>
    if s.accumulated.length ≥ reservedLen then
      let total := msgTotalLen s.accumulated
      if total < bufSize then
        if s.accumulated.length ≥ total then
          accumulatorLoop fuel { s with accumulated := s.accumulated.drop total } (handled ++ [s.accumulated.take total])
        else some (.returned s handled)
      else some .assertion
    else some (.returned s handled)

/-- `fp_rfcomm_data_received`, which calls `fp_rfcomm_data_accumulator`. -/
def fpRfcommDataReceived (fuel : Nat) (s : State) (data : List UInt8) : Option Result :=
  if s.accumulated.length + data.length < bufSize then
    accumulatorLoop fuel { s with accumulated := s.accumulated ++ data } []
  else some .assertion

/-- `fp_rfcomm_connected_handler`, as far as the accumulator is concerned. -/
def fpRfcommConnectedHandler (s : State) : State :=
  if s.isConnected then s else { isConnected := true, accumulated := [] }

/-! ## Messages and runs -/

structure Message where
  group : UInt8
  code : UInt8
  data : List UInt8
  data_lt : data.length < 2 ^ 16

def Message.encode (m : Message) : List UInt8 :=
  m.group :: m.code :: UInt8.ofNat (m.data.length / 256) :: UInt8.ofNat (m.data.length % 256) :: m.data

/-- A call that ends. -/
def Call (s : State) (data : List UInt8) (r : Result) : Prop := ∃ fuel, fpRfcommDataReceived fuel s data = some r

/-- Packets received one after the other by calls that all return, and the
buffers handed to the message handler. -/
inductive Feeds : State → List (List UInt8) → State → List (List UInt8) → Prop
  | nil (s) : Feeds s [] s []
  | cons {s s₁ s₂ data packets handled log} : Call s data (.returned s₁ handled) → Feeds s₁ packets s₂ log →
      Feeds s (data :: packets) s₂ (handled ++ log)

/-- Every packet is shorter than the buffer, together with the bytes of the
message that it goes on with; the packets begin `n` bytes into the stream. -/
def PacketsFit (msgs : List Message) : Nat → List (List UInt8) → Prop
  | _, [] => True
  | n, data :: packets =>
    pending Message.encode msgs n + data.length < bufSize ∧ PacketsFit msgs (n + data.length) packets

/-- Every message is shorter than the buffer as well. -/
def Fits (msgs : List Message) (packets : List (List UInt8)) : Prop :=
  (∀ m ∈ msgs, m.data.length + reservedLen < bufSize) ∧ PacketsFit msgs 0 packets

/-- From message border to message border, as the code computes them, one comes
to a message whose total length is 0 in 16 bits: its length field is 0xFFFC. -/
inductive MeetsZero : List UInt8 → Prop
  | here {buf} : reservedLen ≤ buf.length → dataLen buf = 0xFFFC → MeetsZero buf
  | behind {buf} : reservedLen ≤ buf.length → msgTotalLen buf ≠ 0 → msgTotalLen buf < bufSize →
      msgTotalLen buf ≤ buf.length → MeetsZero (buf.drop (msgTotalLen buf)) → MeetsZero buf

/-! ## The loop -/

theorem dataLen_lt (buf : List UInt8) : dataLen buf < 2 ^ 16 := by
  have h₂ := (buf.getD 2 0).toNat_lt
  have h₃ := (buf.getD 3 0).toNat_lt
  unfold dataLen
  omega

theorem msgTotalLen_eq_zero (buf : List UInt8) : msgTotalLen buf = 0 ↔ dataLen buf = 0xFFFC := by
  have := dataLen_lt buf
  unfold msgTotalLen reservedLen
  omega

theorem length_encode (m : Message) : m.encode.length = m.data.length + reservedLen := rfl

theorem encode_ne_nil (m : Message) : m.encode ≠ [] := by simp [Message.encode]

/-- The length field of a buffer that begins with a message. -/
theorem dataLen_of_prefix {m : Message} {buf : List UInt8} (h : reservedLen ≤ buf.length)
    (hbuf : buf <+: m.encode ∨ m.encode <+: buf) : dataLen buf = m.data.length := by
  have hsame : ∀ i < reservedLen, buf.getD i 0 = m.encode.getD i 0 := by
    intro i hi
    rcases hbuf with ⟨t, ht⟩ | ⟨t, rfl⟩
    · rw [← ht, List.getD_append _ _ _ _ (by omega)]
    · exact List.getD_append _ _ _ _ (by rw [length_encode]; omega)
  have hlt := m.data_lt
  rw [dataLen, hsame 2 (by decide), hsame 3 (by decide)]
  simp only [Message.encode, List.getD_cons_succ, List.getD_cons_zero, UInt8.toNat_ofNat']
  omega

theorem msgTotalLen_of_prefix {m : Message} {buf : List UInt8} (h : reservedLen ≤ buf.length)
    (hm : m.data.length + reservedLen < bufSize) (hbuf : buf <+: m.encode ∨ m.encode <+: buf) :
    msgTotalLen buf = m.data.length + reservedLen := by
  rw [msgTotalLen, dataLen_of_prefix h hbuf]
  exact Nat.mod_eq_of_lt (Nat.lt_trans hm (by decide))

/-- A call that returns has handled the bytes that it took out of the buffer, in
pieces shorter than the buffer, and has stopped within a message. -/
theorem accumulatorLoop_returned {fuel : Nat} {s s' : State} {handled log : List (List UInt8)}
    (h : accumulatorLoop fuel s handled = some (.returned s' log)) :
    ∃ new, log = handled ++ new ∧ new.flatten ++ s'.accumulated = s.accumulated ∧
      (∀ piece ∈ new, piece.length < bufSize) ∧
      (s'.accumulated.length < reservedLen ∨ s'.accumulated.length < msgTotalLen s'.accumulated) := by
  induction fuel generalizing s handled with
  | zero => cases h
  | succ fuel ih =>
    unfold accumulatorLoop at h
    dsimp only at h
    split_ifs at h with hlen htotal hwhole
    · obtain ⟨new, rfl, hflat, hnew, hend⟩ := ih h
      refine ⟨s.accumulated.take (msgTotalLen s.accumulated) :: new, by simp, ?_, ?_, hend⟩
      · rw [List.flatten_cons, List.append_assoc, hflat]
        exact List.take_append_drop ..
      · intro piece hpiece
        rcases List.mem_cons.1 hpiece with rfl | hpiece
        · exact Nat.lt_of_le_of_lt (List.length_take_le ..) htotal
        · exact hnew piece hpiece
    · obtain ⟨rfl, rfl⟩ := Result.returned.inj (Option.some.inj h)
      exact ⟨[], by simp, rfl, by simp, .inr (Nat.lt_of_not_le hwhole)⟩
    · cases h
    · obtain ⟨rfl, rfl⟩ := Result.returned.inj (Option.some.inj h)
      exact ⟨[], by simp, rfl, by simp, .inl (Nat.lt_of_not_le hlen)⟩

/-- At a message of total length 0 the loop makes no progress. -/
theorem MeetsZero.loop {buf : List UInt8} (h : MeetsZero buf) (fuel : Nat) (s : State) (handled : List (List UInt8))
    (hs : s.accumulated = buf) : accumulatorLoop fuel s handled = none := by
  induction h generalizing fuel s handled with
  | here hlen hzero =>
    obtain htotal := (msgTotalLen_eq_zero _).2 hzero
    subst hs
    induction fuel generalizing handled with
    | zero => rfl
    | succ fuel ih =>
      have hsame : { s with accumulated := s.accumulated.drop 0 } = s := rfl
      simp only [accumulatorLoop, ge_iff_le, hlen, htotal, if_true, Nat.zero_le, bufSize, Nat.zero_lt_succ, hsame, ih]
  | behind hlen hpos hlt hle _ ih =>
    subst hs
    cases fuel with
    | zero => rfl
    | succ fuel =>
      unfold accumulatorLoop
      rw [if_pos hlen, if_pos hlt, if_pos hle]
      exact ih fuel _ _ rfl

/-- Everywhere else it ends. -/
theorem loop_ends {n : Nat} {s : State} (hn : s.accumulated.length < n) (h : ¬ MeetsZero s.accumulated)
    (handled : List (List UInt8)) : ∃ r, accumulatorLoop n s handled = some r := by
  induction n generalizing s handled with
  | zero => omega
  | succ n ih =>
    unfold accumulatorLoop
    dsimp only
    split_ifs with hlen htotal hwhole
    · have hpos : msgTotalLen s.accumulated ≠ 0 := fun hzero => h (.here hlen ((msgTotalLen_eq_zero _).1 hzero))
      apply ih
      · simp only [List.length_drop]
        omega
      · exact fun hmeets => h (.behind hlen hpos htotal hwhole hmeets)
    · exact ⟨_, rfl⟩
    · exact ⟨_, rfl⟩
    · exact ⟨_, rfl⟩

/-- Whole messages, and the beginning of one, in the buffer. -/
theorem loop_messages {done todo : List Message} {rest : List UInt8}
    (hdone : ∀ m ∈ done, m.data.length + reservedLen < bufSize) (htodo : ∀ m ∈ todo, m.data.length + reservedLen < bufSize)
    (hrest : Begun Message.encode todo rest) (s : State) (handled : List (List UInt8)) :
    accumulatorLoop (done.length + 1) { s with accumulated := done.flatMap Message.encode ++ rest } handled =
      some (.returned { s with accumulated := rest } (handled ++ done.map Message.encode)) := by
  induction done generalizing handled with
  | nil =>
    simp only [accumulatorLoop, List.flatMap_nil, List.nil_append, List.map_nil, List.append_nil]
    by_cases hlen : rest.length ≥ reservedLen
    · obtain ⟨m, todo, rfl⟩ : ∃ m l, todo = m :: l := by
        cases todo with
        | nil => simp [hrest.nil] at hlen
        | cons m l => exact ⟨m, l, rfl⟩
      have hshort := hrest.2 m rfl
      have hprefix : rest <+: m.encode :=
        List.prefix_of_prefix_length_le hrest.1 (List.prefix_append ..) (Nat.le_of_lt hshort)
      have htotal := msgTotalLen_of_prefix hlen (htodo m (List.mem_cons_self ..)) (.inl hprefix)
      rw [length_encode] at hshort
      rw [if_pos hlen, htotal, if_pos (htodo m (List.mem_cons_self ..)), if_neg (Nat.not_le.2 hshort)]
    · rw [if_neg hlen]
  | cons m done ih =>
    have hm := hdone m (List.mem_cons_self ..)
    have hbuf : m.encode <+: m.encode ++ (done.flatMap Message.encode ++ rest) := List.prefix_append ..
    have hle := hbuf.length_le
    rw [length_encode] at hle
    have htotal := msgTotalLen_of_prefix (Nat.le_trans (Nat.le_add_left ..) hle) hm (.inr hbuf)
    rw [List.length_cons, accumulatorLoop]
    simp only [List.flatMap_cons, List.append_assoc]
    rw [if_pos (Nat.le_trans (Nat.le_add_left ..) hle), htotal, if_pos hm, if_pos hle, ← length_encode,
      List.drop_left, List.take_left, ih fun m hm => hdone m (List.mem_cons_of_mem _ hm)]
    simp

/-! ## Calls -/

/-- Within a message. -/
def Waits (s : State) : Prop := s.accumulated.length < reservedLen ∨ s.accumulated.length < msgTotalLen s.accumulated

theorem Call.returned {s s' : State} {data : List UInt8} {handled : List (List UInt8)}
    (h : Call s data (.returned s' handled)) :
    s.accumulated.length + data.length < bufSize ∧ handled.flatten ++ s'.accumulated = s.accumulated ++ data ∧
      (∀ piece ∈ handled, piece.length < bufSize) ∧ Waits s' := by
  obtain ⟨fuel, h⟩ := h
  unfold fpRfcommDataReceived at h
  split_ifs at h with hfits
  · obtain ⟨new, rfl, hflat, hnew, hend⟩ := accumulatorLoop_returned h
    exact ⟨hfits, hflat, hnew, hend⟩
  · cases h

/-- A call ends, unless the packet is taken into the buffer and the loop comes
to a message of total length 0. -/
theorem call_ends_iff (s : State) (data : List UInt8) : (∃ r, Call s data r) ↔
    ¬ (s.accumulated.length + data.length < bufSize ∧ MeetsZero (s.accumulated ++ data)) := by
  constructor
  · rintro ⟨r, fuel, hr⟩ ⟨hfits, hmeets⟩
    rw [fpRfcommDataReceived, if_pos hfits, hmeets.loop fuel _ [] rfl] at hr
    cases hr
  · intro h
    by_cases hfits : s.accumulated.length + data.length < bufSize
    · obtain ⟨r, hr⟩ := loop_ends (s := { s with accumulated := s.accumulated ++ data }) (Nat.lt_succ_self _)
        (fun hmeets => h ⟨hfits, hmeets⟩) []
      exact ⟨r, _, by rw [fpRfcommDataReceived, if_pos hfits, hr]⟩
    · exact ⟨.assertion, 0, by rw [fpRfcommDataReceived, if_neg hfits]⟩

/-- The buffer is never full. -/
theorem Feeds.accumulated_lt {s s' : State} {packets log : List (List UInt8)} (h : Feeds s packets s' log)
    (hs : s.accumulated.length < bufSize) : s'.accumulated.length < bufSize := by
  induction h with
  | nil => exact hs
  | cons hcall _ ih =>
    obtain ⟨hfits, hflat, -, -⟩ := hcall.returned
    have := congrArg List.length hflat
    simp only [List.length_append] at this
    exact ih (by omega)

theorem Feeds.pieces_lt {s s' : State} {packets log : List (List UInt8)} (h : Feeds s packets s' log) :
    ∀ piece ∈ log, piece.length < bufSize := by
  induction h with
  | nil => simp
  | cons hcall _ ih =>
    intro piece hpiece
    rcases List.mem_append.1 hpiece with hpiece | hpiece
    · exact hcall.returned.2.2.1 piece hpiece
    · exact ih piece hpiece

/-! ## Packets that carry messages -/

/-- The state lies `done` messages and the beginning of `todo` into the stream. -/
structure At (done todo : List Message) (n : Nat) (s : State) : Prop where
  position : n = (done.flatMap Message.encode).length + s.accumulated.length
  begun : Begun Message.encode todo s.accumulated

theorem At.pending {done todo : List Message} {n : Nat} {s : State} (h : At done todo n s) :
    pending Message.encode (done ++ todo) n = s.accumulated.length := by
  rw [h.position, pending_done, h.begun.pending]

theorem feeds_of_fit {packets : List (List UInt8)} {done todo : List Message} {n : Nat} {s : State}
    (hat : At done todo n s) (hstream : s.accumulated ++ packets.flatten = todo.flatMap Message.encode)
    (hsmall : ∀ m ∈ todo, m.data.length + reservedLen < bufSize) (hfit : PacketsFit (done ++ todo) n packets) :
    ∃ s', Feeds s packets s' (todo.map Message.encode) := by
  induction packets generalizing done todo n s with
  | nil =>
    cases todo with
    | nil => exact ⟨s, .nil s⟩
    | cons m todo =>
      -- the first message would be whole
      have hlen := congrArg List.length hstream
      have hshort := hat.begun.2 m rfl
      simp at hlen
      omega
  | cons data packets ih =>
    obtain ⟨hlen, hfit⟩ := hfit
    rw [hat.pending] at hlen
    have hseen : s.accumulated ++ data <+: todo.flatMap Message.encode :=
      ⟨packets.flatten, by rw [← hstream, List.flatten_cons, List.append_assoc]⟩
    obtain ⟨done', todo', rest, rfl, hsplit, hrest⟩ := seen_split todo hseen
    have hcall : Call s data (.returned { s with accumulated := rest } (done'.map Message.encode)) := by
      refine ⟨done'.length + 1, ?_⟩
      rw [fpRfcommDataReceived, if_pos hlen, hsplit,
        loop_messages (fun m hm => hsmall m (List.mem_append_left _ hm))
          (fun m hm => hsmall m (List.mem_append_right _ hm)) hrest s []]
      rfl
    have hat' : At (done ++ done') todo' (n + data.length) { s with accumulated := rest } := by
      have := congrArg List.length hsplit
      simp only [List.length_append] at this
      exact ⟨by rw [hat.position, List.flatMap_append, List.length_append]; simp only; omega, hrest⟩
    have hstream' : rest ++ packets.flatten = todo'.flatMap Message.encode := by
      have heq := hstream
      rw [List.flatten_cons, ← List.append_assoc, hsplit, List.flatMap_append, List.append_assoc] at heq
      exact List.append_cancel_left heq
    obtain ⟨s', hfeeds⟩ := ih hat' hstream' (fun m hm => hsmall m (List.mem_append_right _ hm))
      (by rwa [List.append_assoc])
    exact ⟨s', by rw [List.map_append]; exact .cons hcall hfeeds⟩

theorem fit_of_feeds {packets : List (List UInt8)} {done todo : List Message} {n : Nat} {s s' : State}
    (hat : At done todo n s) (hstream : s.accumulated ++ packets.flatten = todo.flatMap Message.encode)
    (hsmall : ∀ m ∈ todo, m.data.length + reservedLen < bufSize)
    (h : Feeds s packets s' (todo.map Message.encode)) : PacketsFit (done ++ todo) n packets := by
  induction packets generalizing done todo n s with
  | nil => trivial
  | cons data packets ih =>
    generalize hlog : todo.map Message.encode = log at h
    cases h with
    | cons hcall hfeeds =>
      rename_i s₁ handled log
      obtain ⟨done', todo', rfl, rfl, rfl⟩ := List.map_eq_append_iff.1 hlog
      obtain ⟨hlen, hflat, -, hwaits⟩ := hcall.returned
      rw [← List.flatMap_def] at hflat
      have hstream' : s₁.accumulated ++ packets.flatten = todo'.flatMap Message.encode := by
        have heq := hstream
        rw [List.flatten_cons, ← List.append_assoc, ← hflat, List.flatMap_append, List.append_assoc] at heq
        exact List.append_cancel_left heq
      have hbegun : Begun Message.encode todo' s₁.accumulated := by
        refine ⟨⟨packets.flatten, hstream'⟩, fun m hm => ?_⟩
        obtain ⟨l, rfl⟩ := List.head?_eq_some_iff.1 hm
        rcases hwaits with hwaits | hwaits
        · exact Nat.lt_of_lt_of_le hwaits (Nat.le_add_left ..)
        · by_contra hlong
          -- the whole message would have been handled
          have hprefix : m.encode <+: s₁.accumulated :=
            List.prefix_of_prefix_length_le (List.prefix_append ..) ⟨packets.flatten, hstream'⟩ (Nat.le_of_not_lt hlong)
          have hle := hprefix.length_le
          rw [length_encode] at hle
          have htotal := msgTotalLen_of_prefix (Nat.le_trans (Nat.le_add_left ..) hle) (hsmall m (by simp)) (.inr hprefix)
          omega
      have hat' : At (done ++ done') todo' (n + data.length) s₁ := by
        have := congrArg List.length hflat
        simp only [List.length_append] at this
        exact ⟨by rw [hat.position, List.flatMap_append, List.length_append]; omega, hbegun⟩
      refine ⟨by rwa [hat.pending], ?_⟩
      rw [← List.append_assoc]
      exact ih hat' hstream' (fun m hm => hsmall m (List.mem_append_right _ hm)) hfeeds

/-- After a connection, exactly the sequences of messages that fit are passed
on; the buffer is never full, and a call ends exactly if it does not come to a
message of total length 0. -/
theorem reassembly_iff (s : State) (hs : s.isConnected = false) :
    (∀ (msgs : List Message) (packets : List (List UInt8)), packets.flatten = msgs.flatMap Message.encode →
      ((∃ s', Feeds (fpRfcommConnectedHandler s) packets s' (msgs.map Message.encode)) ↔ Fits msgs packets)) ∧
    (∀ (s' : State) (packets log : List (List UInt8)) (data : List UInt8),
      Feeds (fpRfcommConnectedHandler s) packets s' log →
      s'.accumulated.length < bufSize ∧
      ((∃ r, Call s' data r) ↔
        ¬ (s'.accumulated.length + data.length < bufSize ∧ MeetsZero (s'.accumulated ++ data)))) := by
  constructor
  · intro msgs packets hstream
    have hfresh : (fpRfcommConnectedHandler s).accumulated = [] := by simp [fpRfcommConnectedHandler, hs]
    have hat : At [] msgs 0 (fpRfcommConnectedHandler s) := ⟨by simp [hfresh], by rw [hfresh]; exact begun_nil encode_ne_nil⟩
    have hstream' : (fpRfcommConnectedHandler s).accumulated ++ packets.flatten = msgs.flatMap Message.encode := by
      rw [hfresh, List.nil_append, hstream]
    constructor
    · rintro ⟨s', hfeeds⟩
      have hsmall : ∀ m ∈ msgs, m.data.length + reservedLen < bufSize := by
        intro m hm
        rw [← length_encode]
        exact hfeeds.pieces_lt _ (List.mem_map_of_mem hm)
      exact ⟨hsmall, fit_of_feeds hat hstream' hsmall hfeeds⟩
    · rintro ⟨hsmall, hfit⟩
      exact feeds_of_fit hat hstream' hsmall hfit
  · intro s' packets log data hfeeds
    refine ⟨hfeeds.accumulated_lt ?_, call_ends_iff s' data⟩
    simp [fpRfcommConnectedHandler, hs]

/-- Two messages, for the witness. -/
def twoMessages : List Message := [⟨3, 1, [7], by decide⟩, ⟨3, 2, [], by decide⟩]

/-- They come in two packets, cut within the second message. -/
theorem reassembly_iff_two : ∃ s', Feeds (fpRfcommConnectedHandler ⟨false, [9]⟩)
    [[3, 1, 0, 1, 7, 3], [2, 0, 0]] s' (twoMessages.map Message.encode) := by
  have hfit : Fits twoMessages [[3, 1, 0, 1, 7, 3], [2, 0, 0]] := by
    simp [Fits, PacketsFit, pending, length_encode, twoMessages, reservedLen, bufSize]
  exact ((reassembly_iff ⟨false, [9]⟩ rfl).1 twoMessages [[3, 1, 0, 1, 7, 3], [2, 0, 0]] (by decide)).2 hfit

/-- A length field of 0xFFFC keeps a call from ever returning, and a message of
124 bytes of data trips the assertion. -/
theorem call_never_returns :
    (∀ r, ¬ Call (fpRfcommConnectedHandler ⟨false, []⟩) [3, 1, 0xFF, 0xFC] r) ∧
    Call (fpRfcommConnectedHandler ⟨false, []⟩) [3, 1, 0, 124] .assertion := by
  refine ⟨fun r hr => ?_, 1, ?_⟩
  · exact (call_ends_iff _ _).1 ⟨r, hr⟩ ⟨by decide, .here (by decide) (by decide)⟩
  · simp [fpRfcommDataReceived, fpRfcommConnectedHandler, accumulatorLoop, msgTotalLen, dataLen, bufSize, reservedLen]

end BtApp.MessageStream
