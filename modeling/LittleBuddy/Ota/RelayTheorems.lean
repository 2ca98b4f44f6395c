import LittleBuddy.Ota.Relay
import Mathlib.Data.List.Forall2
/-!
# Theorems about the relay

Two devices that relay packets to each other, with their sending threads, the
frames on the way, and frames that are damaged there. Every packet is one frame,
and the frame carries all of it unless it is as long as the frame.
-/
open Bytes Runs Utils

namespace Ota

/-! ## Runs -/

inductive Side where
  | left | right
  deriving DecidableEq

def Side.other : Side → Side
  | left => right
  | right => left

@[simp] theorem Side.other_other (x : Side) : x.other.other = x := by cases x <;> rfl
@[simp] theorem Side.other_ne (x : Side) : x.other ≠ x := by cases x <;> simp [other]

/-- A frame on the way. -/
structure Flight where
  buf : Nat → UInt8
  len : Nat

/-- The devices, the frames that a side has sent and that have not arrived yet,
and for each frame that has arrived whether it was accepted. -/
structure Relay where
  dev : Side → Device
  way : Side → List Flight
  outcome : Side → List Bool

inductive Event where
  /-- A packet for the other side. -/
  | relay (x : Side) (needed : Bool) (cmd : OtaCommand) (payload : List UInt8)
  /-- The thread of `x` sends a frame. -/
  | send (x : Side)
  /-- The next frame of `x` to arrive is damaged. -/
  | damage (x : Side) (f : Flight)
  /-- The next frame of `x` arrives, and the handler returns `status`. -/
  | arrive (x : Side) (status : OtaStatus)

def Relay.setDev (s : Relay) (x : Side) (d : Device) : Relay := { s with dev := Function.update s.dev x d }

def Relay.step : Event → Relay → Option Relay
  | .relay x needed cmd payload, s => do
    let (_, d) ← otaCommonRelayDataToPeer needed cmd payload (s.dev x)
    some (s.setDev x d)
  | .send x, s => do
    let (frame, d) ← otaTwsThread (s.dev x)
    let way := match frame with
      | some frame => s.way x ++ [⟨bufferOf frame, frame.length⟩]
      | none => s.way x
    some { s.setDev x d with way := Function.update s.way x way }
  | .damage x f, s =>
    match s.way x with
    | [] => none
    | _ :: way => some { s with way := Function.update s.way x (f :: way) }
  | .arrive x status, s =>
    match s.way x with
    | [] => none
    | f :: way => do
      let (ok, d) ← otaCommonOnRelayDataReceived f.buf f.len status (s.dev x.other)
      some { s.setDev x.other d with
        way := Function.update s.way x way
        outcome := Function.update s.outcome x (s.outcome x ++ [ok]) }

/-- No packet is empty, and a damaged frame is one that the receiver rejects. -/
def Relayed : Event → Relay → Prop
  | .relay _ _ _ payload, _ => payload ≠ []
  | .damage _ f, _ => frameIsValid f.buf f.len = false
  | _, _ => True

instance (e : Event) (s : Relay) : Decidable (Relayed e s) :=
  match e with
  | .relay _ _ _ payload => inferInstanceAs (Decidable (payload ≠ []))
  | .damage _ f => inferInstanceAs (Decidable (frameIsValid f.buf f.len = false))
  | .send _ | .arrive .. => inferInstanceAs (Decidable True)

/-- A device after `_reset_env`, with the handler registered. -/
def Device.fresh (txBuf rxBuf : Int → UInt8) : Device where
  txQueue := initCQueue otaMaxMtu txBuf
  rxQueue := initCQueue otaMaxMtu rxBuf
  tempRxBuf := fun _ => 0
  peerResult := 0
  currentMagicCode := 0
  currentCmdType := 0
  peerCmdReceivedHandler := true
  sent := []
  delivered := []

def Relay.initial : Relay where
  dev _ := .fresh (fun _ => 0) fun _ => 0
  way _ := []
  outcome _ := []

/-- The packets of `x` whose frames the other side has accepted. -/
def Relay.accepted (s : Relay) (x : Side) : List Packet :=
  (((s.dev x).sent.zip (s.outcome x)).filter (·.2)).map (·.1)

/-- What the frame of a packet carries. -/
def Packet.carried (p : Packet) : Packet := { p with payload := p.payload.take (p.payload.length % payloadMaxLen) }

/-- The frame of a packet, and the packet as it is queued. -/
def Packet.frame (p : Packet) : List UInt8 :=
  frameHead p.cmd.code magicComplete (p.payload.length % payloadMaxLen) ++ p.carried.payload

def Packet.queued (p : Packet) : List UInt8 := leBytes 2 p.frame.length ++ p.frame

/-- The sender takes it. -/
def Packet.Fits (p : Packet) : Prop := p.payload ≠ [] ∧ p.payload.length ≤ payloadMaxLen

theorem carried_length (p : Packet) : p.carried.payload.length = p.payload.length % payloadMaxLen := by
  rw [Packet.carried, List.length_take]
  exact Nat.min_eq_left (Nat.mod_le _ _)

@[simp] theorem frameHead_length (c : UInt8) (m n : Nat) : (frameHead c m n).length = headSize := by
  simp [frameHead]

theorem frame_length (p : Packet) : p.frame.length = headSize + p.payload.length % payloadMaxLen := by
  rw [Packet.frame, List.length_append, frameHead_length, carried_length]

theorem frame_le (p : Packet) : p.frame.length ≤ relayDataMaxSize := by
  have := Nat.mod_lt p.payload.length (show payloadMaxLen > 0 by decide)
  rw [frame_length]
  simp only [relayDataMaxSize, headSize, payloadMaxLen] at *
  omega

/-- The frame carries the whole packet, unless that fills the frame. -/
theorem carried_eq_iff {p : Packet} (h : p.Fits) : p.carried = p ↔ p.payload.length < payloadMaxLen := by
  obtain ⟨hne, hle⟩ := h
  have hpos : 0 < p.payload.length := List.length_pos_iff.2 hne
  constructor
  · intro he
    have hlen := carried_length p
    rw [he] at hlen
    rw [hlen]
    exact Nat.mod_lt _ (by decide)
  · intro hlt
    rw [Packet.carried, Nat.mod_eq_of_lt hlt, List.take_length]

/-! ## Sending -/

variable {d d' : Device} {l : List UInt8}

theorem enCQueue_inv {q q' : CQueue} {n : Nat} (h : q.Holds n l) {e : List UInt8} (hq : enCQueue q e = (.ok, q')) :
    q'.Holds n (l ++ e) := by
  by_cases he : l.length + e.length ≤ n
  · obtain ⟨q₁, hrun, hh⟩ := enCQueue_ok h he
    rw [hq] at hrun
    cases hrun
    exact hh
  · rw [enCQueue_full h (Nat.lt_of_not_le he)] at hq
    cases hq

theorem pushFrame_spec (h : d.txQueue.Holds otaMaxMtu l) {cmd : OtaCommand} {m n : Nat} {data : List UInt8}
    (hp : pushFrame cmd m n data d = some d') : ∃ q, d' = { d with txQueue := q } ∧
      q.Holds otaMaxMtu (l ++ (leBytes 2 (headSize + n) ++ (frameHead cmd.code m n ++ data.take n))) := by
  unfold pushFrame at hp
  split at hp
  · cases hp
  · rename_i q₁ h₁
    split at hp
    · cases hp
    · rename_i q₂ h₂
      cases hp
      refine ⟨q₂, rfl, ?_⟩
      rw [← List.append_assoc]
      exact enCQueue_inv (enCQueue_inv h h₁) h₂

theorem relayLoop_one (cmd : OtaCommand) (data : List UInt8) (d : Device) :
    relayLoop cmd data 1 1 d = pushFrame cmd magicComplete (data.length % payloadMaxLen) data d := by
  simp [relayLoop]

/-- A packet is accepted as one frame. -/
theorem otaRelayData_spec (h : d.txQueue.Holds otaMaxMtu l) {cmd : OtaCommand} {data : List UInt8} (hne : data ≠ [])
    (hr : otaRelayData cmd data d = some d') : ∃ q, d' = { d with txQueue := q, sent := d.sent ++ [⟨cmd, data⟩] } ∧
      Packet.Fits ⟨cmd, data⟩ ∧ q.Holds otaMaxMtu (l ++ Packet.queued ⟨cmd, data⟩) := by
  have hpos : 0 < data.length := List.length_pos_iff.2 hne
  unfold otaRelayData at hr
  split at hr
  · cases hr
  · rename_i hle
    have hle' : data.length ≤ payloadMaxLen := Nat.le_of_not_lt hle
    have hnum : (if data.length % payloadMaxLen ≠ 0 then data.length / payloadMaxLen + 1
        else data.length / payloadMaxLen) = 1 := by
      simp only [payloadMaxLen, relayDataMaxSize, headSize] at hle' ⊢
      split <;> omega
    simp only [hnum, relayLoop_one] at hr
    obtain ⟨q, rfl, hq⟩ := pushFrame_spec (d := { d with sent := d.sent ++ [⟨cmd, data⟩] }) h hr
    refine ⟨q, rfl, ⟨hne, hle'⟩, ?_⟩
    rw [Packet.queued, frame_length]
    exact hq

/-- The thread sends the frame of the packet that was queued first. -/
theorem otaTwsThread_spec {ps : List Packet} (h : d.txQueue.Holds otaMaxMtu (ps.flatMap Packet.queued)) :
    (ps = [] ∧ otaTwsThread d = some (none, d)) ∨ ∃ p ps' q, ps = p :: ps' ∧
      otaTwsThread d = some (some p.frame, { d with txQueue := q }) ∧
      q.Holds otaMaxMtu (ps'.flatMap Packet.queued) := by
  cases ps with
  | nil =>
    refine .inl ⟨rfl, ?_⟩
    unfold otaTwsThread lengthOfCQueue
    rw [if_pos (by simpa using h.len)]
  | cons p ps =>
    have hlen : (leBytes 2 p.frame.length).length = 2 := length_leBytes _ _
    have hdec : ofLe (leBytes 2 p.frame.length) = p.frame.length := by
      apply ofLe_leBytes
      have := frame_le p
      simp only [relayDataMaxSize] at this
      omega
    rw [List.flatMap_cons, Packet.queued] at h
    have hne : d.txQueue.len ≠ 0 := by
      rw [h.len]
      simp only [List.length_append, length_leBytes]
      omega
    obtain ⟨q₁, h₁, hq₁⟩ := deCQueue_ok h true (show 2 ≤ _ by simp)
    rw [List.append_assoc, List.drop_left' hlen] at hq₁
    obtain ⟨q₂, h₂, hq₂⟩ := deCQueue_ok hq₁ true (show p.frame.length ≤ _ by simp)
    rw [List.drop_left] at hq₂
    refine .inr ⟨p, ps, q₂, rfl, ?_, hq₂⟩
    unfold otaTwsThread lengthOfCQueue
    rw [if_neg hne, h₁]
    simp only [if_true, List.append_assoc, List.take_left' hlen, hdec, h₂, List.take_left]
    rw [if_neg (Nat.not_lt.2 (frame_le p))]

/-! ## Receiving -/

/-- What a receiver reads in the frame of a packet. -/
theorem frame_fields (p : Packet) : (bufferOf p.frame) 0 = p.cmd.code ∧ magicOf (bufferOf p.frame) = magicComplete ∧
    ofLe (read (bufferOf p.frame) 5 2) = p.payload.length % payloadMaxLen ∧
    read (bufferOf p.frame) headSize (p.frame.length - headSize) = p.carried.payload := by
  have hlen := carried_length p
  refine ⟨rfl, ?_, ?_, ?_⟩
  · have := read_bufferOf [p.cmd.code] (leBytes 4 magicComplete)
      (leBytes 2 (p.payload.length % payloadMaxLen) ++ p.carried.payload)
    rw [length_leBytes] at this
    rw [magicOf, Packet.frame, frameHead, List.cons_append, List.append_assoc]
    exact (congrArg ofLe this).trans (ofLe_leBytes (by decide))
  · have := read_bufferOf (p.cmd.code :: leBytes 4 magicComplete) (leBytes 2 (p.payload.length % payloadMaxLen))
      p.carried.payload
    rw [List.length_cons, length_leBytes, length_leBytes] at this
    rw [Packet.frame, frameHead, List.cons_append, List.append_assoc]
    refine (congrArg ofLe this).trans (ofLe_leBytes ?_)
    exact Nat.lt_trans (Nat.mod_lt _ (by decide)) (by decide)
  · have := read_bufferOf (frameHead p.cmd.code magicComplete (p.payload.length % payloadMaxLen)) p.carried.payload []
    rw [frameHead_length, List.append_nil] at this
    rw [frame_length, Nat.add_sub_cancel_left, ← hlen]
    exact this

/-- A receiver between two packets. -/
structure Device.Ready (d : Device) : Prop where
  rx : d.rxQueue.Holds otaMaxMtu []
  complete : d.currentMagicCode ≠ magicIncomplete
  handler : d.peerCmdReceivedHandler = true

theorem twsFrameValidityCheck_ready (h : d.Ready) {ptr : Nat → UInt8} {n : Nat} {b : Bool}
    (hc : twsFrameValidityCheck ptr n d = some b) : b = frameIsValid ptr n := by
  unfold twsFrameValidityCheck at hc
  split at hc
  · cases hc
  · rw [if_neg (fun hp => h.complete hp.1)] at hc
    exact (Option.some.inj hc).symm

/-- The frame on the way is that of the packet, or one that will be rejected. -/
def Carries (p : Packet) (f : Flight) : Prop :=
  (f.buf = bufferOf p.frame ∧ f.len = p.frame.length) ∨ frameIsValid f.buf f.len = false

theorem frameIsValid_frame (p : Packet) : frameIsValid (bufferOf p.frame) p.frame.length = true := by
  obtain ⟨-, hmagic, hlength, -⟩ := frame_fields p
  rw [frameIsValid, hmagic, hlength, frame_length, Nat.add_comm]
  simp

/-- What receiving a frame of packet `p` does: the packet is handed on if the
frame is accepted, and there may be a response. -/
structure Receives (d d' : Device) (l : List UInt8) (p : Packet) (ok : Bool) (rs : List Packet) : Prop where
  ready : d'.Ready
  delivered : d'.delivered = d.delivered ++ if ok then [p.carried] else []
  sent : d'.sent = d.sent ++ rs
  fits : ∀ r ∈ rs, r.Fits
  tx : d'.txQueue.Holds otaMaxMtu (l ++ rs.flatMap Packet.queued)

theorem twsRsp_receives (htx : d.txQueue.Holds otaMaxMtu l) {status : OtaStatus} {p : Packet} {ok : Bool}
    {e : Device} (hr : twsRsp status e = some d') (hready : e.Ready) (hq : e.txQueue = d.txQueue) (hs : e.sent = d.sent)
    (hdel : e.delivered = d.delivered ++ if ok then [p.carried] else []) :
    ∃ rs, Receives d d' l p ok rs := by
  obtain ⟨q, rfl, hfits, htx'⟩ := otaRelayData_spec (d := e) (l := l) (by rw [hq]; exact htx) (by simp) hr
  refine ⟨[⟨.rsp, [status.code]⟩], ⟨hready.rx, hready.complete, hready.handler⟩, hdel, by rw [← hs], by simpa using hfits, ?_⟩
  simpa using htx'

theorem dispatch_receives (htx : d.txQueue.Holds otaMaxMtu l) {status : OtaStatus} {p : Packet} {e : Device}
    (hr : dispatch p.cmd p.carried.payload status e = some d') (hready : e.Ready) (hq : e.txQueue = d.txQueue)
    (hs : e.sent = d.sent) (hdel : e.delivered = d.delivered) : ∃ rs, Receives d d' l p true rs := by
  unfold dispatch at hr
  split at hr
  · rename_i hcmd
    cases hr
    refine ⟨[], ⟨hready.rx, hready.complete, hready.handler⟩, ?_, by simpa using hs, by simp, ?_⟩
    · simp only [hdel, if_true, ← hcmd]
      rfl
    · simpa [hq] using htx
  · rw [if_pos hready.handler] at hr
    exact twsRsp_receives htx hr ⟨hready.rx, hready.complete, hready.handler⟩ hq hs (by rw [if_pos rfl, ← hdel]; rfl)

/-- What the arrival of a frame does. -/
theorem received_spec (hd : d.Ready) (htx : d.txQueue.Holds otaMaxMtu l) {p : Packet} {f : Flight} (hf : Carries p f)
    {status : OtaStatus} {ok : Bool} (hr : otaCommonOnRelayDataReceived f.buf f.len status d = some (ok, d')) :
    ∃ rs, Receives d d' l p ok rs := by
  obtain ⟨valid, hvalid, hr⟩ := Option.bind_eq_some_iff.1 hr
  have hv := twsFrameValidityCheck_ready hd hvalid
  rcases hf with ⟨hbuf, hlen⟩ | hbad
  · rw [hbuf, hlen, frameIsValid_frame] at hv
    subst hv
    obtain ⟨hcode, hmagic, -, hdata⟩ := frame_fields p
    simp only [if_true, hbuf, hlen, hdata, hmagic, hcode] at hr
    split at hr
    · cases hr
    · rename_i rx hrx
      have hrx' := enCQueue_inv hd.rx hrx
      rw [List.nil_append] at hrx'
      have hn : (lengthOfCQueue rx).toNat = p.carried.payload.length := by simp [lengthOfCQueue, hrx'.len]
      obtain ⟨rx', hde, hrx''⟩ := deCQueue_ok hrx' true (Nat.le_refl _)
      simp only [hn, hde, if_true, List.take_length] at hr
      rw [List.drop_length] at hrx''
      obtain ⟨cmd, hcmd, hr⟩ := Option.bind_eq_some_iff.1 hr
      rw [ofCode_code] at hcmd
      cases hcmd
      obtain ⟨e, he, hr⟩ := Option.bind_eq_some_iff.1 hr
      cases hr
      obtain ⟨rs, h⟩ := dispatch_receives htx he ⟨hrx'', show magicComplete ≠ magicIncomplete by decide, hd.handler⟩ rfl rfl rfl
      exact ⟨rs, ⟨h.ready.rx, show magicInvalid ≠ magicIncomplete by decide, h.ready.handler⟩, h.delivered, h.sent, h.fits, h.tx⟩
  · rw [hbad] at hv
    subst hv
    simp only [Bool.false_eq_true, if_false] at hr
    obtain ⟨cmd, -, hr⟩ := Option.bind_eq_some_iff.1 hr
    split at hr
    · cases hr
      exact ⟨[], ⟨hd.rx, hd.complete, hd.handler⟩, by simp, by simp, by simp, by simpa using htx⟩
    · obtain ⟨e, he, hr⟩ := Option.bind_eq_some_iff.1 hr
      cases hr
      exact twsRsp_receives htx he hd rfl rfl (by simp)

/-! ## What holds in every run -/

/-- The packets that `x` has sent, in order: those whose frames have arrived, those
on the way, and those queued. What was accepted of the first has been handed on. -/
structure Flow (s : Relay) (x : Side) : Prop where
  ready : (s.dev x).Ready
  fits : ∀ p ∈ (s.dev x).sent, p.Fits
  packets : ∃ done flying queued, (s.dev x).sent = done ++ (flying ++ queued) ∧ done.length = (s.outcome x).length ∧
    List.Forall₂ Carries flying (s.way x) ∧ (s.dev x).txQueue.Holds otaMaxMtu (queued.flatMap Packet.queued)
  delivered : (s.dev x.other).delivered = (s.accepted x).map Packet.carried

/-- The accepted packets are among those whose frames have arrived. -/
theorem accepted_eq {s : Relay} {x : Side} {done rest : List Packet} (hsent : (s.dev x).sent = done ++ rest)
    (hlen : done.length = (s.outcome x).length) :
    s.accepted x = ((done.zip (s.outcome x)).filter (·.2)).map (·.1) := by
  have hzip : (done ++ rest).zip (s.outcome x ++ []) = _ := List.zip_append hlen
  rw [List.append_nil, List.zip_nil_right, List.append_nil] at hzip
  rw [Relay.accepted, hsent, hzip]

/-- The flow of `x` depends on the receiver only through what it has handed on. -/
theorem Flow.congr {s s' : Relay} {x : Side} (h : Flow s x) (hd : s'.dev x = s.dev x) (hw : s'.way x = s.way x)
    (ho : s'.outcome x = s.outcome x) (hdel : (s'.dev x.other).delivered = (s.dev x.other).delivered) : Flow s' x := by
  obtain ⟨hready, hfits, hpackets, hdelivered⟩ := h
  refine ⟨by rwa [hd], by rwa [hd], by rwa [hd, hw, ho], ?_⟩
  rw [hdel, hdelivered]
  unfold Relay.accepted
  rw [hd, ho]

/-- A device that sends more packets. -/
theorem Flow.sends {s : Relay} {x : Side} (h : Flow s x) {d : Device} {ps : List Packet} (hd : d.Ready)
    (hfits : ∀ p ∈ ps, p.Fits) (hsent : d.sent = (s.dev x).sent ++ ps)
    (htx : ∀ l, (s.dev x).txQueue.Holds otaMaxMtu l → d.txQueue.Holds otaMaxMtu (l ++ ps.flatMap Packet.queued)) :
    Flow (s.setDev x d) x := by
  have hx : (s.setDev x d).dev x = d := Function.update_self ..
  have hy : (s.setDev x d).dev x.other = s.dev x.other := Function.update_of_ne x.other_ne ..
  obtain ⟨done, flying, queued, hpk, hlen, hway, hq⟩ := h.packets
  refine ⟨by rwa [hx], ?_, ⟨done, flying, queued ++ ps, ?_, hlen, hway, ?_⟩, ?_⟩
  · rw [hx, hsent]
    intro p hp
    rcases List.mem_append.1 hp with hp | hp
    · exact h.fits p hp
    · exact hfits p hp
  · rw [hx, hsent, hpk]
    simp only [List.append_assoc]
  · rw [hx, List.flatMap_append]
    exact htx _ hq
  · have hnew : ((s.setDev x d).dev x).sent = done ++ (flying ++ queued ++ ps) := by
      rw [hx, hsent, hpk]
      simp only [List.append_assoc]
    rw [hy, h.delivered, accepted_eq hpk hlen, accepted_eq hnew hlen]
    rfl

theorem Side.eq_or (x z : Side) : z = x ∨ z = x.other := by
  cases x <;> cases z <;> simp [Side.other]

theorem relay_flow {s s' : Relay} {x : Side} {needed : Bool} {cmd : OtaCommand} {payload : List UInt8}
    (h : ∀ z, Flow s z) (hne : payload ≠ []) (ht : s.step (.relay x needed cmd payload) = some s') : ∀ z, Flow s' z := by
  obtain ⟨⟨r, d⟩, hrelay, hs⟩ := Option.bind_eq_some_iff.1 ht
  cases hs
  have hd : ∃ ps, d.Ready ∧ d.delivered = (s.dev x).delivered ∧ (∀ p ∈ ps, p.Fits) ∧ d.sent = (s.dev x).sent ++ ps ∧
      ∀ l, (s.dev x).txQueue.Holds otaMaxMtu l → d.txQueue.Holds otaMaxMtu (l ++ ps.flatMap Packet.queued) := by
    unfold otaCommonRelayDataToPeer at hrelay
    split at hrelay
    · obtain ⟨d₁, hr, hd₁⟩ := Option.map_eq_some_iff.1 hrelay
      cases hd₁
      obtain ⟨done, flying, queued, -, -, -, hq⟩ := (h x).packets
      obtain ⟨q, rfl, hfits, -⟩ := otaRelayData_spec hq hne hr
      refine ⟨[⟨cmd, payload⟩], ⟨(h x).ready.rx, (h x).ready.complete, (h x).ready.handler⟩, rfl, by simpa using hfits,
        rfl, fun l hl => ?_⟩
      obtain ⟨q', hq', -, hh⟩ := otaRelayData_spec hl hne hr
      rw [List.flatMap_singleton, show q = q' from congrArg Device.txQueue hq']
      exact hh
    · cases hrelay
      exact ⟨[], (h x).ready, rfl, by simp, by simp, by simp⟩
  obtain ⟨ps, hready, hdel, hfits, hsent, htx⟩ := hd
  intro z
  rcases Side.eq_or x z with rfl | rfl
  · exact (h _).sends hready hfits hsent htx
  · refine (h _).congr (Function.update_of_ne x.other_ne ..) rfl rfl ?_
    rw [Side.other_other]
    exact (congrArg Device.delivered (Function.update_self ..)).trans hdel

theorem send_flow {s s' : Relay} {x : Side} (h : ∀ z, Flow s z) (ht : s.step (.send x) = some s') : ∀ z, Flow s' z := by
  obtain ⟨done, flying, queued, hpk, hlen, hway, hq⟩ := (h x).packets
  obtain ⟨⟨frame, d⟩, hsend, hs⟩ := Option.bind_eq_some_iff.1 ht
  have hs' := Option.some.inj hs
  have hd : s'.dev = Function.update s.dev x d := by rw [← hs']; rfl
  have ho : s'.outcome = s.outcome := by rw [← hs']; rfl
  rcases otaTwsThread_spec hq with ⟨-, hrun⟩ | ⟨p, ps, q, rfl, hrun, hq'⟩
  · -- nothing was queued
    rw [hrun] at hsend
    cases hsend
    rw [Function.update_eq_self] at hd
    have hw : s'.way = s.way := by rw [← hs']; exact Function.update_eq_self ..
    exact fun z => (h z).congr (by rw [hd]) (by rw [hw]) (by rw [ho]) (by rw [hd])
  · rw [hrun] at hsend
    cases hsend
    have hw : s'.way = Function.update s.way x (s.way x ++ [⟨bufferOf p.frame, p.frame.length⟩]) := by rw [← hs']
    have hdel : ∀ z, (s'.dev z).delivered = (s.dev z).delivered := by
      intro z
      rw [hd]
      rcases Side.eq_or x z with rfl | rfl
      · rw [Function.update_self]
      · rw [Function.update_of_ne x.other_ne]
    intro z
    rcases Side.eq_or x z with rfl | rfl
    · have hx : s'.dev z = { s.dev z with txQueue := q } := by rw [hd, Function.update_self]
      have hsent : (s'.dev z).sent = done ++ (flying ++ [p] ++ ps) := by
        rw [hx, hpk]
        simp
      refine ⟨?_, ?_, ⟨done, flying ++ [p], ps, hsent, by rw [ho]; exact hlen, ?_, ?_⟩, ?_⟩
      · rw [hx]
        exact ⟨(h z).ready.rx, (h z).ready.complete, (h z).ready.handler⟩
      · rw [hx]
        exact (h z).fits
      · rw [hw, Function.update_self]
        exact List.rel_append hway (.cons (.inl ⟨rfl, rfl⟩) .nil)
      · rw [hx]
        exact hq'
      · rw [hdel, (h z).delivered, accepted_eq hpk hlen, accepted_eq hsent (by rw [ho]; exact hlen), ho]
    · refine (h _).congr ?_ ?_ (by rw [ho]) (hdel _)
      · rw [hd, Function.update_of_ne x.other_ne]
      · rw [hw, Function.update_of_ne x.other_ne]

theorem damage_flow {s s' : Relay} {x : Side} {f : Flight} (h : ∀ z, Flow s z) (hf : frameIsValid f.buf f.len = false)
    (ht : s.step (.damage x f) = some s') : ∀ z, Flow s' z := by
  simp only [Relay.step] at ht
  split at ht
  · cases ht
  · rename_i g way hw
    have hs' := Option.some.inj ht
    have hd : s'.dev = s.dev := by rw [← hs']
    have ho : s'.outcome = s.outcome := by rw [← hs']
    have hway' : s'.way = Function.update s.way x (f :: way) := by rw [← hs']
    intro z
    rcases Side.eq_or x z with rfl | rfl
    · obtain ⟨hready, hfits, ⟨done, flying, queued, hpk, hlen, hway, hq⟩, hdel⟩ := h z
      rw [hw] at hway
      cases hway with
      | @cons p g ps gs hpg hrest =>
        refine ⟨by rwa [hd], by rwa [hd], ⟨done, p :: ps, queued, by rwa [hd], by rwa [ho], ?_, by rwa [hd]⟩, ?_⟩
        · rw [hway', Function.update_self]
          exact .cons (.inr hf) hrest
        · rw [hd, hdel]
          unfold Relay.accepted
          rw [hd, ho]
    · refine (h _).congr (by rw [hd]) ?_ (by rw [ho]) (by rw [hd])
      rw [hway', Function.update_of_ne x.other_ne]

theorem arrive_flow {s s' : Relay} {x : Side} {status : OtaStatus} (h : ∀ z, Flow s z)
    (ht : s.step (.arrive x status) = some s') : ∀ z, Flow s' z := by
  simp only [Relay.step] at ht
  split at ht
  · cases ht
  · rename_i f way hw
    obtain ⟨⟨ok, d⟩, hrec, hs⟩ := Option.bind_eq_some_iff.1 ht
    have hs' := Option.some.inj hs
    have hd : s'.dev = Function.update s.dev x.other d := by rw [← hs']; rfl
    have ho : s'.outcome = Function.update s.outcome x (s.outcome x ++ [ok]) := by rw [← hs']
    have hway' : s'.way = Function.update s.way x way := by rw [← hs']
    have hx : s'.dev x = s.dev x := by rw [hd, Function.update_of_ne x.other_ne.symm]
    have hy : s'.dev x.other = d := by rw [hd, Function.update_self]
    obtain ⟨hready, hfits, ⟨done, flying, queued, hpk, hlen, hway, hq⟩, hdel⟩ := h x
    rw [hw] at hway
    cases hway with
    | @cons p g ps gs hpf hrest =>
      have hrec' : ∀ l, (s.dev x.other).txQueue.Holds otaMaxMtu l → ∃ rs, Receives (s.dev x.other) d l p ok rs :=
        fun l hl => received_spec (h x.other).ready hl hpf hrec
      intro z
      rcases Side.eq_or x z with rfl | rfl
      · obtain ⟨-, -, ⟨_, _, queued', -, -, -, hqy⟩, -⟩ := h z.other
        obtain ⟨rs, hr⟩ := hrec' _ hqy
        have hsent : (s'.dev z).sent = (done ++ [p]) ++ (ps ++ queued) := by
          rw [hx, hpk]
          simp
        have hlen' : (done ++ [p]).length = (s'.outcome z).length := by
          rw [ho, Function.update_self]
          simpa using hlen
        refine ⟨by rwa [hx], by rwa [hx], ⟨done ++ [p], ps, queued, hsent, hlen', ?_, by rwa [hx]⟩, ?_⟩
        · rwa [hway', Function.update_self]
        · rw [hy, hr.delivered, hdel, accepted_eq hpk hlen, accepted_eq hsent hlen', ho, Function.update_self,
            List.zip_append hlen, List.filter_append, List.map_append, List.map_append]
          cases ok <;> simp
      · obtain ⟨hready', hfits', ⟨done', flying', queued', hpk', hlen', hway'', hq''⟩, hdel'⟩ := h x.other
        obtain ⟨rs, hr⟩ := hrec' _ hq''
        have hsent : (s'.dev x.other).sent = done' ++ (flying' ++ (queued' ++ rs)) := by
          rw [hy, hr.sent, hpk']
          simp
        have ho' : s'.outcome x.other = s.outcome x.other := by rw [ho, Function.update_of_ne x.other_ne]
        refine ⟨by rw [hy]; exact hr.ready, ?_, ⟨done', flying', queued' ++ rs, hsent, by rw [ho']; exact hlen', ?_, ?_⟩, ?_⟩
        · rw [hy, hr.sent]
          intro q hq
          rcases List.mem_append.1 hq with hq | hq
          · exact hfits' q hq
          · exact hr.fits q hq
        · rw [hway', Function.update_of_ne x.other_ne]
          exact hway''
        · rw [hy, List.flatMap_append]
          exact hr.tx
        · rw [Side.other_other, hx, accepted_eq hsent (by rw [ho']; exact hlen'), ho', ← accepted_eq hpk' hlen', ← hdel',
            Side.other_other]

theorem flow_initial (x : Side) : Flow .initial x where
  ready := ⟨holds_init _ _, show 0 ≠ magicIncomplete by decide, rfl⟩
  fits := by simp [Relay.initial, Device.fresh]
  packets := ⟨[], [], [], rfl, rfl, .nil, holds_init _ _⟩
  delivered := rfl

theorem step_flow {e : Event} {s s' : Relay} (h : ∀ z, Flow s z) (hc : Relayed e s) (ht : s.step e = some s') :
    ∀ z, Flow s' z := by
  cases e with
  | relay x needed cmd payload => exact relay_flow h hc ht
  | send x => exact send_flow h ht
  | damage x f => exact damage_flow h hc ht
  | arrive x status => exact arrive_flow h ht

theorem run_flow {s : Relay} {evs : List Event} (h : Run Relay.step Relayed (· = Relay.initial) s evs) :
    ∀ z, Flow s z := by
  refine h.inv (fun s => ∀ z, Flow s z) ?_ fun e s s' hi hc ht => step_flow hi hc ht
  rintro s rfl
  exact flow_initial

/-- A packet is accepted while the queue has room for it. -/
theorem otaRelayData_defined (h : d.txQueue.Holds otaMaxMtu l) {cmd : OtaCommand} {data : List UInt8} (hne : data ≠ [])
    (hle : data.length ≤ payloadMaxLen) (hroom : l.length + (2 + headSize + data.length) ≤ otaMaxMtu) :
    ∃ d', otaRelayData cmd data d = some d' := by
  have hpos : 0 < data.length := List.length_pos_iff.2 hne
  have hnum : (if data.length % payloadMaxLen ≠ 0 then data.length / payloadMaxLen + 1
      else data.length / payloadMaxLen) = 1 := by
    simp only [payloadMaxLen, relayDataMaxSize, headSize] at hle ⊢
    split <;> omega
  have hmod := Nat.mod_le data.length payloadMaxLen
  unfold otaRelayData
  rw [if_neg (Nat.not_lt.2 hle)]
  simp only [hnum, relayLoop_one]
  unfold pushFrame
  obtain ⟨q₁, h₁, hq₁⟩ := enCQueue_ok h (e := leBytes 2 (headSize + data.length % payloadMaxLen))
    (by rw [length_leBytes]; omega)
  obtain ⟨q₂, h₂, -⟩ := enCQueue_ok hq₁ (e := frameHead cmd.code magicComplete (data.length % payloadMaxLen) ++
      data.take (data.length % payloadMaxLen)) (by
    simp only [List.length_append, length_leBytes, frameHead_length, List.length_take]
    omega)
  simp only [h₁, h₂]
  exact ⟨_, rfl⟩

theorem twsRsp_defined {status : OtaStatus} (h : d.txQueue.Holds otaMaxMtu l) (hroom : l.length + 10 ≤ otaMaxMtu) :
    ∃ d', twsRsp status d = some d' :=
  otaRelayData_defined h (by simp) (show 1 ≤ payloadMaxLen by decide) hroom

theorem dispatch_defined {cmd : OtaCommand} {packet : List UInt8} {status : OtaStatus}
    (h : d.txQueue.Holds otaMaxMtu l) (hroom : l.length + 10 ≤ otaMaxMtu) :
    (dispatch cmd packet status d).isSome = true := by
  unfold dispatch
  split
  · rfl
  · split
    · exact Option.isSome_iff_exists.2 (twsRsp_defined h hroom)
    · exact Option.isSome_iff_exists.2 (twsRsp_defined h hroom)

theorem isSome_bind_some {α β : Type} {x : Option α} {f : α → β} (h : x.isSome = true) :
    (x.bind fun a => some (f a)).isSome = true := by
  obtain ⟨a, rfl⟩ := Option.isSome_iff_exists.1 h
  rfl

/-- The next frame to arrive is processed while the receiver can queue a response,
if it is a frame at all: no longer than a frame, and with a valid command. -/
theorem arrive_defined {s : Relay} {evs : List Event} (h : Run Relay.step Relayed (· = Relay.initial) s evs) {x : Side}
    {f : Flight} {way : List Flight} (hway : s.way x = f :: way) (hlen : f.len ≤ relayDataMaxSize)
    (hcmd : (OtaCommand.ofCode (f.buf 0)).isSome = true)
    (hroom : 10 ≤ availableOfCQueue (s.dev x.other).txQueue) (status : OtaStatus) :
    (s.step (.arrive x status)).isSome = true := by
  obtain ⟨done, flying, queued, -, -, hw, -⟩ := (run_flow h x).packets
  obtain ⟨hready, -, ⟨_, _, queued', -, -, -, hq⟩, -⟩ := run_flow h x.other
  have hroom' : (queued'.flatMap Packet.queued).length + 10 ≤ otaMaxMtu := by
    have := hq.size
    have := hq.len
    unfold availableOfCQueue at hroom
    omega
  rw [hway] at hw
  cases hw with
  | @cons p g ps gs hpf hrest =>
    have hcheck : twsFrameValidityCheck f.buf f.len (s.dev x.other) = some (frameIsValid f.buf f.len) := by
      unfold twsFrameValidityCheck
      rw [if_neg (Nat.not_lt.2 hlen), if_neg (fun hp => hready.complete hp.1)]
    have hrec : (otaCommonOnRelayDataReceived f.buf f.len status (s.dev x.other)).isSome = true := by
      unfold otaCommonOnRelayDataReceived
      rw [hcheck, Option.bind_eq_bind, Option.bind_some]
      rcases hpf with ⟨hbuf, hlen⟩ | hbad
      · obtain ⟨hcode, hmagic, -, hdata⟩ := frame_fields p
        have hfit := frame_le p
        rw [frame_length] at hfit
        obtain ⟨rx, hrx, -⟩ := enCQueue_ok hready.rx (e := p.carried.payload) (by
          rw [carried_length, List.length_nil]
          simp only [relayDataMaxSize, headSize, otaMaxMtu] at hfit ⊢
          omega)
        rw [hbuf, hlen, frameIsValid_frame, if_pos rfl, hdata, hmagic, hcode, hrx]
        simp only [if_true, ofCode_code, Option.bind_eq_bind, Option.bind_some]
        exact isSome_bind_some (dispatch_defined hq hroom')
      · obtain ⟨cmd, hcmd⟩ := Option.isSome_iff_exists.1 hcmd
        rw [hbad, if_neg (by simp), hcmd, Option.bind_eq_bind, Option.bind_some]
        split
        · rfl
        · exact isSome_bind_some (Option.isSome_iff_exists.2 (twsRsp_defined hq hroom'))
    simp only [Relay.step, hway]
    exact isSome_bind_some hrec

/-- In every run, once the frames of `x` have all arrived: unless frames were
rejected every packet was accepted; what was handed on is the accepted packets,
each as far as its frame carries it, so it is these packets if and only if none
of them is as long as a frame. -/
theorem relay_round_trip {s : Relay} {evs : List Event}
    (h : Run Relay.step Relayed (· = Relay.initial) s evs) (x : Side)
    (htx : (s.dev x).txQueue.len = 0) (hway : s.way x = []) :
    ((∀ ok ∈ s.outcome x, ok = true) → s.accepted x = (s.dev x).sent) ∧
      (s.dev x.other).delivered = (s.accepted x).map Packet.carried ∧
      ((s.dev x.other).delivered = s.accepted x ↔ ∀ p ∈ s.accepted x, p.payload.length < payloadMaxLen) := by
  have hflow := run_flow h x
  obtain ⟨done, flying, queued, hsent, hlen, hw, hq⟩ := hflow.packets
  rw [hway] at hw
  cases hw
  have hqueued : queued = [] := by
    cases queued with
    | nil => rfl
    | cons p ps =>
      have := hq.len
      rw [htx, List.flatMap_cons, Packet.queued] at this
      simp only [List.length_append, length_leBytes] at this
      omega
  subst hqueued
  have hdone : (s.dev x).sent = done := by simpa using hsent
  have hmem : ∀ p ∈ s.accepted x, p ∈ (s.dev x).sent := by
    intro p hp
    obtain ⟨⟨p', ok⟩, hz, rfl⟩ := List.mem_map.1 hp
    exact (List.of_mem_zip (List.mem_filter.1 hz).1).1
  refine ⟨fun hok => ?_, hflow.delivered, ?_⟩
  · rw [Relay.accepted, List.filter_eq_self.2, List.map_fst_zip]
    · rw [hdone]
      exact Nat.le_of_eq hlen
    · rintro ⟨p, ok⟩ hz
      exact hok ok (List.of_mem_zip hz).2
  · have hid := List.map_inj_left (f := Packet.carried) (g := id) (l := s.accepted x)
    rw [List.map_id] at hid
    rw [hflow.delivered, hid]
    exact forall₂_congr fun p hp => carried_eq_iff (hflow.fits p (hmem p hp))

/-- Two packets, one as long as possible. -/
theorem relay_round_trip_example : ∃ s : Relay, (s.dev .right).delivered = (s.dev .left).sent ∧
    (s.dev .left).sent.length = 2 := by
  obtain ⟨s, hr, hg⟩ := exists_run_of_check Relay.step Relayed (· = Relay.initial) (some Relay.initial)
    [.relay .left true .begin [1, 2, 3], .send .left, .arrive .left .ok,
      .relay .left true .data (List.replicate 504 7), .send .left, .arrive .left .ok]
    (fun s => decide ((s.dev .left).txQueue.len = 0 ∧ (s.outcome .left) = [true, true] ∧ (s.dev .left).sent =
      [⟨.begin, [1, 2, 3]⟩, ⟨.data, List.replicate 504 7⟩]) && (s.way .left).isEmpty)
    (fun s hs => (Option.some.inj hs).symm) (by decide +kernel)
  obtain ⟨hg, hway⟩ := Bool.and_eq_true_iff.1 hg
  obtain ⟨htx, hout, hsent⟩ := of_decide_eq_true hg
  obtain ⟨hall, -, hiff⟩ := relay_round_trip hr .left htx (List.isEmpty_iff.1 hway)
  have hacc := hall (by simp [hout])
  rw [hacc, hsent] at hiff
  refine ⟨s, ?_, by rw [hsent]; rfl⟩
  rw [hsent]
  refine hiff.2 fun p hp => ?_
  simp only [List.mem_cons, List.not_mem_nil, or_false] at hp
  rcases hp with rfl | rfl
  · decide
  · rw [List.length_replicate]
    decide

/-- A packet as long as a frame arrives empty. -/
theorem full_frame_lost : ¬ ∀ (s : Relay) (evs : List Event), Run Relay.step Relayed (· = Relay.initial) s evs →
    ∀ x, (s.dev x).txQueue.len = 0 → s.way x = [] → (s.dev x.other).delivered = s.accepted x := by
  intro hclaim
  obtain ⟨s, hr, hg⟩ := exists_run_of_check Relay.step Relayed (· = Relay.initial) (some Relay.initial)
    [.relay .left true .data (List.replicate 505 7), .send .left, .arrive .left .ok]
    (fun s => decide ((s.dev .left).txQueue.len = 0 ∧ (s.dev .right).delivered = [⟨.data, []⟩] ∧
      s.accepted .left = [⟨.data, List.replicate 505 7⟩]) && (s.way .left).isEmpty)
    (fun s hs => (Option.some.inj hs).symm) (by decide +kernel)
  obtain ⟨hg, hway⟩ := Bool.and_eq_true_iff.1 hg
  obtain ⟨htx, hdel, hacc⟩ := of_decide_eq_true hg
  have := hclaim s _ hr .left htx (List.isEmpty_iff.1 hway)
  rw [hacc] at this
  exact absurd (hdel.symm.trans this) (by decide)

end Ota
