import LittleBuddy.A2dp.Sbc
/-!
# Packets lost from an SBC stream

A stream whose packets all carry the same number of frames, of which some
packets are lost: `a2dp_audio_sbc_packet_recover_find_missing` derives from the
sequence number and the timestamp of a packet how many frames are missing in
front of it.
-/
open Bytes Runs
open A2dp.Aac (Header getPassed)

namespace A2dp.Sbc

/-- A counter that has advanced by less than its range has advanced by what the
difference says, wherever it started. -/
theorem getPassed_add (max : Nat) {d : Nat} (a : Nat) (hd : d ≤ max) :
    getPassed ((a + d) % (max + 1)) (a % (max + 1)) max = d := by
  have hlt : a % (max + 1) < max + 1 := Nat.mod_lt _ (Nat.succ_pos _)
  rw [← Nat.mod_add_mod]
  generalize a % (max + 1) = b at hlt
  rw [getPassed]
  by_cases hwrap : b + d < max + 1
  · rw [Nat.mod_eq_of_lt hwrap, if_neg (by omega)]
    omega
  · rw [Nat.mod_eq_sub_mod (by omega), Nat.mod_eq_of_lt (by omega), if_pos (by omega)]
    omega

/-! ## The stream -/

/-- Where the two counters start, and how many frames a packet carries. -/
structure Stream where
  sequenceNumber : Nat
  timestamp : Nat
  n : Nat

/-- The header of packet `p`. -/
def Stream.header (st : Stream) (p : Nat) : Header :=
  ⟨(st.sequenceNumber + p) % 2 ^ 16, (st.timestamp + p * (st.n * listSamples)) % 2 ^ 32⟩

/-- With `k` packets lost between `q` and the next one, `k * n` frames are missing. -/
theorem find_missing_stream (st : Stream) {q k : Nat} (hn : 1 ≤ st.n) (hk : k * st.n < mtuLimiter) :
    packetRecoverFindMissing (some (st.header q)) (st.header (q + k + 1)) st.n = k * st.n := by
  have hkn : k ≤ k * st.n := Nat.le_mul_of_pos_right k hn
  unfold mtuLimiter at hk
  have hseq : getPassed (st.header (q + k + 1)).sequenceNumber (st.header q).sequenceNumber 0xFFFF = k + 1 := by
    have h := getPassed_add 0xFFFF (st.sequenceNumber + q) (show k + 1 ≤ 0xFFFF by omega)
    rw [Nat.add_assoc] at h
    exact h
  match k with
  | 0 => simp [packetRecoverFindMissing, hseq]
  | k + 1 =>
    have hsucc : (k + 1 + 1) * st.n = (k + 1) * st.n + st.n := Nat.succ_mul _ _
    have hnle : st.n ≤ (k + 1) * st.n := Nat.le_mul_of_pos_left _ (Nat.succ_pos k)
    have htime : getPassed (st.header (q + (k + 1) + 1)).timestamp (st.header q).timestamp 0xFFFFFFFF =
        (k + 1 + 1) * (st.n * listSamples) := by
      have hsmall : (k + 1 + 1) * (st.n * listSamples) ≤ 0xFFFFFFFF := by
        rw [← Nat.mul_assoc, hsucc]
        unfold listSamples
        omega
      have h := getPassed_add 0xFFFFFFFF (st.timestamp + q * (st.n * listSamples)) hsmall
      rw [Nat.add_assoc, ← Nat.add_mul] at h
      exact h
    have hdiv : (k + 1 + 1) * (st.n * listSamples) / (k + 1 + 1) % listSamples = 0 := by
      rw [Nat.mul_div_cancel_left _ (Nat.succ_pos _), Nat.mul_mod_left]
    have hneed : (k + 1 + 1) * (st.n * listSamples) / listSamples = (k + 1) * st.n + st.n := by
      rw [← Nat.mul_assoc, Nat.mul_div_cancel _ (by decide), hsucc]
    simp only [packetRecoverFindMissing, hseq, htime, hneed]
    rw [if_pos (by omega), if_pos hdiv, if_pos (by omega), Nat.add_sub_cancel]

/-! ## What storing does to the last header -/

variable {P : Type} {parser : P → List UInt8 → Option UInt16 × P}

theorem foldl_free_lastValid (frames : List Frame) (s : State P) :
    (frames.foldl subframeFree s).lastValid = s.lastValid := by
  induction frames generalizing s with
  | nil => rfl
  | cons f frames ih => exact ih _

/-- A packet that is stored is the last valid one; no other one changes that. -/
theorem storePacket_lastValid (parser : P → List UInt8 → Option UInt16 × P) (s : State P) (header : Header)
    (mem : Nat → UInt8) (buffer_bytes : Nat) :
    (storePacket parser s header mem buffer_bytes).2.lastValid =
      if (storePacket parser s header mem buffer_bytes).1 = .noError then some header else s.lastValid := by
  by_cases hnum : (mem 0).toNat = 0
  · rw [storePacket, if_pos hnum]
    rfl
  by_cases hroom : s.list.length + (mem 0).toNat < mtuLimiter
  case neg =>
    rw [storePacket, if_neg hnum, if_neg hroom]
    rfl
  rw [storePacket_eq hnum hroom]
  rcases hparse : parseLoop parser mem header (mem 0).toNat (payloadBytes buffer_bytes) frameListMax 0 [] s with
    ⟨ok, frames, s₁⟩
  obtain ⟨lens, hparsed, -⟩ := parseLoop_spec (by rfl) hparse
  cases ok with
  | true => rfl
  | false => exact (foldl_free_lastValid frames s₁).trans hparsed.lastValid

/-! ## Runs of the stream -/

variable (parser)

/-- The packet carries the stream's number of frames. -/
def Carries (st : Stream) (s : State P) (mem : Nat → UInt8) (buffer_bytes : Nat) : Prop :=
  (mem 0).toNat = st.n ∧
    ∃ lens, Cuts parser mem (payloadBytes buffer_bytes) s.preparse 0 lens ∧ lens.length = st.n

/-- The next packet of the stream is lost or arrives, or the decoder takes a frame off the list. -/
inductive StreamEvent where
  | lost
  | packet (mem : Nat → UInt8) (buffer_bytes : Nat)
  | decode

/-- The decoder, the number of the next packet, and of the last one that was stored. -/
structure Receiver (P : Type) where
  sbc : State P
  next : Nat
  last : Option Nat

def StreamEvent.step (st : Stream) : StreamEvent → Receiver P → Option (Receiver P)
  | .lost, x => some { x with next := x.next + 1 }
  | .packet mem buffer_bytes, x =>
    let r := storePacket parser x.sbc (st.header x.next) mem buffer_bytes
    some ⟨r.2, x.next + 1, if r.1 = .noError then some x.next else x.last⟩
  | .decode, x => (Sbc.step parser .decode x.sbc).map fun sbc => { x with sbc }

/-- Every packet that arrives carries the stream's number of frames. -/
def StreamEvent.Carries (st : Stream) (e : StreamEvent) (x : Receiver P) : Prop :=
  match e with
  | .packet mem buffer_bytes => Sbc.Carries parser st x.sbc mem buffer_bytes
  | _ => True

/-- No packet yet. -/
def Receiver.Start (x : Receiver P) : Prop := x.sbc.list = [] ∧ x.sbc.lastValid = none ∧ x.last = none

/-- `k` packets were lost since the last one that was stored. -/
def Receiver.Lost (x : Receiver P) (k : Nat) : Prop := ∃ q, x.last = some q ∧ x.next = q + k + 1

/-- The list has grown by `missing` copies of the first of `count` numbered
frames, and by these frames. -/
def Grown (missing count : Nat) (before after : List Frame) : Prop :=
  ∃ recovered frames, after = before ++ (recovered ++ frames) ∧ recovered.length = missing ∧ frames.length = count ∧
    (∀ f ∈ recovered, f.curSubSequenceNumber = none ∧ frames.head?.map Frame.sbc_buffer = some f.sbc_buffer) ∧
    ∀ (k : Nat) (f : Frame), frames[k]? = some f → f.curSubSequenceNumber = some k

variable {parser} {st : Stream} {x x' : Receiver P}

/-- The decoder's header is that of the last packet stored, and a packet that is
stored has few enough frames. -/
structure Receiver.Inv (st : Stream) (x : Receiver P) : Prop where
  lastValid : x.sbc.lastValid = x.last.map st.header
  last : ∀ q, x.last = some q → q < x.next ∧ st.n < frameListMax

/-- A packet with the stream's number of frames, by what becomes of it: it is
taken if it is a short one and there is room, else nothing is. -/
theorem Carries.stored {s : State P} {mem : Nat → UInt8} {buffer_bytes : Nat} (header : Header)
    (hc : Carries parser st s mem buffer_bytes) (hn : 1 ≤ st.n) :
    let r := storePacket parser s header mem buffer_bytes
    (st.n < frameListMax ∧ s.list.length + st.n < mtuLimiter ∧ r.1 = .noError ∧
      Grown (recoverCnt s header st.n) st.n s.list r.2.list) ∨
    (¬ (st.n < frameListMax ∧ s.list.length + st.n < mtuLimiter) ∧ r.1 ≠ .noError ∧ r.2.list = s.list) := by
  obtain ⟨hnum, lens, hcuts, hlen⟩ := hc
  have hnum0 : (mem 0).toNat ≠ 0 := by omega
  by_cases hroom : s.list.length + st.n < mtuLimiter
  case neg =>
    refine .inr ⟨fun h => hroom h.2, ?_⟩
    rw [storePacket, if_neg hnum0, hnum, if_neg hroom]
    exact ⟨by simp, rfl⟩
  rcases storePacket_taken parser header buffer_bytes hnum0 (by rw [hnum]; exact hroom) with
    ⟨lens', recovered, frames, hcuts', hshort, hframes, hret, hlist, hrec, hall⟩ | ⟨hmany, hret, hlist, -⟩
  · obtain rfl := hcuts.unique hcuts'
    have hcons : lens ≠ [] := List.ne_nil_of_length_pos (by omega)
    refine .inl ⟨hlen ▸ hshort, hroom, hret, recovered, frames, hlist, ?_, ?_, hall, ?_⟩
    · rw [hrec, if_neg hcons, hnum]
    · rw [hframes, length_framesOf, hlen]
    · intro k f hf
      rw [hframes] at hf
      simpa using (getElem?_framesOf hf).1
  · refine .inr ⟨fun h => ?_, by simp [hret], hlist⟩
    exact absurd (hmany lens hcuts) (by omega)

/-- The invariant holds before the first packet, and every event keeps it. -/
theorem Receiver.Start.inv (h : x.Start) : x.Inv st :=
  ⟨by rw [h.2.1, h.2.2]; rfl, by simp [h.2.2]⟩

theorem Receiver.Inv.step (hn : 1 ≤ st.n) (e : StreamEvent) (hx : x.Inv st) (hc : e.Carries parser st x)
    (hs : e.step parser st x = some x') : x'.Inv st := by
  cases e with
  | lost =>
    obtain rfl := Option.some.inj hs
    exact ⟨hx.lastValid, fun q hq => ⟨Nat.lt_succ_of_lt (hx.last q hq).1, (hx.last q hq).2⟩⟩
  | packet mem buffer_bytes =>
    obtain rfl := Option.some.inj hs
    refine ⟨?_, ?_⟩
    · have h := storePacket_lastValid parser x.sbc (st.header x.next) mem buffer_bytes
      dsimp only
      rw [h]
      split
      · rfl
      · exact hx.lastValid
    · intro q hq
      dsimp only at hq ⊢
      split at hq
      · rename_i hok
        obtain rfl := Option.some.inj hq
        refine ⟨Nat.lt_succ_self _, ?_⟩
        rcases hc.stored (st.header x.next) hn with ⟨hshort, -⟩ | ⟨-, herr, -⟩
        · exact hshort
        · exact absurd hok herr
      · exact ⟨Nat.lt_succ_of_lt (hx.last q hq).1, (hx.last q hq).2⟩
  | decode =>
    obtain ⟨sbc, hstep, rfl⟩ := Option.map_eq_some_iff.1 hs
    refine ⟨?_, hx.last⟩
    cases hlist : x.sbc.list with
    | nil => simp [Sbc.step, hlist] at hstep
    | cons frame list =>
      obtain rfl : subframeFree { x.sbc with list } frame = sbc := by simpa [Sbc.step, hlist] using hstep
      exact hx.lastValid

/-- In every run of a stream: after `k` packets were lost, the next one goes to
the list behind `k * n` copies if the list has room for these, and behind no
copies if none was lost or none was stored before. -/
theorem lost_packets_replaced (parser : P → List UInt8 → Option UInt16 × P) (st : Stream) (hn : 1 ≤ st.n)
    (x : Receiver P) (evs : List StreamEvent)
    (hrun : Run (StreamEvent.step parser st) (StreamEvent.Carries parser st) Receiver.Start x evs)
    (mem : Nat → UInt8) (buffer_bytes : Nat) (hc : Carries parser st x.sbc mem buffer_bytes) :
    let r := storePacket parser x.sbc (st.header x.next) mem buffer_bytes
    (∀ k, 1 ≤ k → x.Lost k → x.sbc.list.length + k * st.n < mtuLimiter →
      r.1 = .noError ∧ Grown (k * st.n) st.n x.sbc.list r.2.list) ∧
    (x.Lost 0 ∨ x.last = none →
      if r.1 = .noError then Grown 0 st.n x.sbc.list r.2.list else r.2.list = x.sbc.list) := by
  have hinv : x.Inv st := hrun.inv (Receiver.Inv st) (fun _ h => h.inv) fun e _ _ h hc hs => h.step hn e hc hs
  have hcopies : ∀ k, x.Lost k → x.sbc.list.length + k * st.n < mtuLimiter →
      recoverCnt x.sbc (st.header x.next) st.n = k * st.n := by
    rintro k ⟨q, hq, hnext⟩ hroom
    rw [recoverCnt, hinv.lastValid, hq, Option.map_some, hnext, find_missing_stream st hn (by omega), if_pos hroom]
  intro r
  refine ⟨fun k hk hlost hroom => ?_, fun hnone => ?_⟩
  · have hshort : st.n < frameListMax := by
      obtain ⟨q, hq, -⟩ := hlost
      exact (hinv.last q hq).2
    have hkn : st.n ≤ k * st.n := Nat.le_mul_of_pos_left _ hk
    rcases hc.stored (st.header x.next) hn with ⟨-, -, hret, hgrown⟩ | ⟨hnot, -⟩
    · rw [hcopies k hlost hroom] at hgrown
      exact ⟨hret, hgrown⟩
    · exact absurd ⟨hshort, by omega⟩ hnot
  · rcases hc.stored (st.header x.next) hn with ⟨-, hroom, hret, hgrown⟩ | ⟨-, hret, hlist⟩
    · rw [if_pos hret]
      have hzero : recoverCnt x.sbc (st.header x.next) st.n = 0 := by
        rcases hnone with hlost | hnone
        · rw [hcopies 0 hlost (by omega), Nat.zero_mul]
        · simp [recoverCnt, packetRecoverFindMissing, hinv.lastValid, hnone]
      rwa [hzero] at hgrown
    · rw [if_neg hret]
      exact hlist

/-- A packet of two frames. -/
def twoFrames : Nat → UInt8 := bufferOf [2, 0x9C, 2, 0x9C, 2]

/-- Packets of two frames; both counters are about to wrap. -/
def twoFramesStream : Stream := ⟨0xFFFF, 0xFFFFFFFF, 2⟩

theorem twoFrames_carries (s : State Unit) : Carries lengthParser twoFramesStream s twoFrames 5 :=
  ⟨rfl, [2, 2], .frame (n := 2) (t := ()) (by decide) (by decide) rfl
    (.frame (n := 2) (t := ()) (by decide) (by decide) rfl (.done (by decide))), rfl⟩

/-- The receiver after the first packet of the stream. -/
def afterFirst : Receiver Unit :=
  ⟨(storePacket lengthParser empty (twoFramesStream.header 0) twoFrames 5).2, 1, some 0⟩

/-- The packet at the wrap is lost. -/
theorem lost_packets_replaced_wrap : ∃ x : Receiver Unit, x.Lost 1 ∧
    Grown 2 2 x.sbc.list (storePacket lengthParser x.sbc (twoFramesStream.header x.next) twoFrames 5).2.list := by
  have hstart : Run (StreamEvent.step lengthParser twoFramesStream) (StreamEvent.Carries lengthParser twoFramesStream)
      Receiver.Start ⟨empty, 0, none⟩ [] := .nil ⟨rfl, rfl, rfl⟩
  have hfirst : Run _ _ _ afterFirst [StreamEvent.packet twoFrames 5] :=
    hstart.snoc (e := StreamEvent.packet twoFrames 5) (twoFrames_carries empty) rfl
  have hrun : Run _ _ _ { afterFirst with next := 2 } [StreamEvent.packet twoFrames 5, .lost] :=
    hfirst.snoc (e := StreamEvent.lost) trivial rfl
  have hlost : Receiver.Lost { afterFirst with next := 2 } 1 := ⟨0, rfl, rfl⟩
  exact ⟨_, hlost, ((lost_packets_replaced lengthParser twoFramesStream (by decide) _ _ hrun twoFrames 5
    (twoFrames_carries _)).1 1 (Nat.le_refl 1) hlost (by decide)).2⟩

end A2dp.Sbc
