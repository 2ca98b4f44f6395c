import LittleBuddy.A2dp.Sbc
/-!
# Discarding packets from an SBC stream

`a2dp_audio_sbc_discards_packet` takes the rest of the packet at the head off
the raw packet list, and then as many frames as the first packet behind it says,
times the number of packets. The copies for missing packets are in the same
list: their numbers are what the heap block held before.
-/
open Bytes Runs
open A2dp.Aac (Header)

namespace A2dp.Sbc

/-! ## The code -/

section

-- the two sub-sequence numbers in a block of the heap before they are written
variable (heap : Nat → UInt16 × UInt16)

/-- `curSubSequenceNumber`, as it is read. -/
def Frame.curSub (f : Frame) : Nat := f.curSubSequenceNumber.getD (heap f.block).1.toNat

/-- `totalSubSequenceNumber`, as it is read. -/
def Frame.totalSub (f : Frame) : Nat := f.totalSubSequenceNumber.getD (heap f.block).2.toNat

/-- The first loop of `a2dp_audio_sbc_discards_packet`: `j` is compared with what
is left of the list. -/
def skipLoop : UInt8 → List Frame → List Frame
  | _, [] => []
  | j, frame :: list =>
    if j.toNat < list.length + 1 then
      if frame.curSub heap ≠ 0 then skipLoop (j + 1) list else frame :: list
    else frame :: list

end

/-- The loop over the frames of a packet. It is left when the list is empty. -/
def subLoop (totalSubSequenceNumber : Nat) : UInt8 → List Frame → Option (List Frame)
  | j, [] => if j.toNat < totalSubSequenceNumber then none else some []
  | j, frame :: list =>
    if j.toNat < totalSubSequenceNumber then subLoop totalSubSequenceNumber (j + 1) list else some (frame :: list)

/-- The loop over packets. Every turn takes a frame, so the length of the list is
enough fuel. -/
def packetLoop (packets totalSubSequenceNumber : Nat) : Nat → UInt8 → List Frame → Option (List Frame)
  | 0, _, _ => none
  | fuel + 1, i, list =>
    if i.toNat < packets then
      (subLoop totalSubSequenceNumber 0 list).bind (packetLoop packets totalSubSequenceNumber fuel (i + 1))
    else some list

/-- How a call of `a2dp_audio_sbc_discards_packet` ends: with
`A2DP_DECODER_NO_ERROR` or `A2DP_DECODER_MEMORY_ERROR` and the list that is left,
in its assertion, or in a division by zero. -/
inductive Discards where
  | noError (list : List Frame)
  | memoryError (list : List Frame)
  | assertion
  | divisionByZero

/-- `a2dp_audio_sbc_discards_packet`. -/
def discardsPacket (heap : Nat → UInt16 × UInt16) (packets : Nat) (list : List Frame) : Discards :=
  match skipLoop heap 0 list with
  | [] => .memoryError []
  | frame :: list =>
    if frame.curSub heap ≠ 0 then .assertion
    else if frame.totalSub heap = 0 then .divisionByZero
    else if packets ≤ (list.length + 1) / frame.totalSub heap then
      match packetLoop packets (frame.totalSub heap) (list.length + 2) 0 (frame :: list) with
      | some list => .noError list
      | none => .memoryError []
    else .memoryError (frame :: list)

/-! ## What it should do -/

/-- The first frame of a packet. -/
def Frame.First (f : Frame) : Prop := f.curSubSequenceNumber = some 0

instance (f : Frame) : Decidable f.First := inferInstanceAs (Decidable (_ = _))

/-- A frame of a packet behind its first one. -/
def Frame.Later (f : Frame) : Prop := ∃ k, f.curSubSequenceNumber = some (k + 1)

/-- A packet: a first frame, and later ones. -/
def IsPacket : List Frame → Prop
  | [] => False
  | f :: fs => f.First ∧ ∀ g ∈ fs, g.Later

/-- No assertion and no division by zero; without an error what is gone is the
rest of the packet at the head and `packets` packets, and a packet begins behind
them or nothing is left. -/
def DiscardsWhole (packets : Nat) (list : List Frame) : Discards → Prop
  | .noError rest => ∃ (part : List Frame) (ps : List (List Frame)), list = part ++ (ps.flatten ++ rest) ∧ (∀ f ∈ part, f.Later) ∧
      (∀ p ∈ ps, IsPacket p) ∧ ps.length = packets ∧ ∀ f, rest.head? = some f → f.First
  | .memoryError _ => True
  | .assertion | .divisionByZero => False

/-- How many frames there are in front of the first one that is numbered 0. -/
def lead (heap : Nat → UInt16 × UInt16) (list : List Frame) : Nat :=
  (list.takeWhile fun f => decide (f.curSub heap ≠ 0)).length

/-- Among the first `n` frames are no copies and `packets` first frames, and
another one is behind them, or nothing. -/
def Level (packets n : Nat) (list : List Frame) : Prop :=
  (∀ f ∈ list.take n, f.curSubSequenceNumber ≠ none) ∧ (list.take n).countP (fun f => decide f.First) = packets ∧
    ∀ f, (list.drop n).head? = some f → f.First

/-- At most about half of the list is in front of the first frame numbered 0;
this one, if there is one, names a number of frames; and where there are so many
for each packet, these are packets. -/
def LevelPackets (heap : Nat → UInt16 × UInt16) (packets : Nat) (list : List Frame) : Prop :=
  lead heap list ≤ (list.length + 1) / 2 ∧ ∀ f, (list.drop (lead heap list)).head? = some f →
    f.totalSub heap ≠ 0 ∧
    (packets = 0 ∨ packets ≤ 255 ∧ f.totalSub heap ≤ 255 → packets * f.totalSub heap ≤ list.length - lead heap list →
      Level packets (lead heap list + packets * f.totalSub heap) list)

/-! ## The loops -/

variable {heap : Nat → UInt16 × UInt16} {list : List Frame} {packets : Nat}

theorem toNat_succ {j : UInt8} (h : j.toNat < 255) : (j + 1).toNat = j.toNat + 1 := by
  rw [UInt8.toNat_add]
  exact Nat.mod_eq_of_lt (Nat.succ_lt_succ h)

theorem lead_cons (f : Frame) : lead heap (f :: list) = if f.curSub heap ≠ 0 then lead heap list + 1 else 0 := by
  unfold lead
  rw [List.takeWhile_cons]
  by_cases h : f.curSub heap ≠ 0
  · rw [if_pos h, if_pos (by simpa using h), List.length_cons]
  · rw [if_neg h, if_neg (by simpa using h), List.length_nil]

theorem lead_le : lead heap list ≤ list.length := (List.takeWhile_prefix _).length_le

/-- In front of the first frame numbered 0 are others. -/
theorem head_ne_of_lt_lead {n : Nat} (h : n < lead heap list) {f : Frame} {rest : List Frame}
    (hdrop : list.drop n = f :: rest) : f.curSub heap ≠ 0 := by
  induction list generalizing n with
  | nil => cases h
  | cons g list ih =>
    rw [lead_cons] at h
    by_cases hg : g.curSub heap ≠ 0
    · rw [if_pos hg] at h
      cases n with
      | zero =>
        cases hdrop
        exact hg
      | succ n => exact ih (by omega) hdrop
    · rw [if_neg hg] at h
      cases h

theorem head_lead {f : Frame} {rest : List Frame} (hdrop : list.drop (lead heap list) = f :: rest) :
    f.curSub heap = 0 := by
  induction list with
  | nil => cases hdrop
  | cons g list ih =>
    rw [lead_cons] at hdrop
    by_cases hg : g.curSub heap ≠ 0
    · rw [if_pos hg] at hdrop
      exact ih hdrop
    · rw [if_neg hg] at hdrop
      cases hdrop
      exact Decidable.not_not.1 hg

/-- Of the frames in front of the first one numbered 0, at most about half of
the list is taken. -/
theorem skipLoop_eq (j : UInt8) (h : j.toNat + list.length ≤ 510) :
    skipLoop heap j list = list.drop (min (lead heap list) ((list.length + 1 - j.toNat) / 2)) := by
  induction list generalizing j with
  | nil => simp [skipLoop]
  | cons f list ih =>
    rw [List.length_cons] at h ⊢
    rw [skipLoop, lead_cons]
    by_cases hj : j.toNat < list.length + 1
    · rw [if_pos hj]
      by_cases hf : f.curSub heap ≠ 0
      · have hnext := toNat_succ (j := j) (by omega)
        have hmin : min (lead heap list + 1) ((list.length + 1 + 1 - j.toNat) / 2) =
            min (lead heap list) ((list.length + 1 - (j.toNat + 1)) / 2) + 1 := by omega
        rw [if_pos hf, if_pos hf, ih (j + 1) (by omega), hnext, hmin, List.drop_succ_cons]
      · rw [if_neg hf, if_neg hf, Nat.zero_min, List.drop_zero]
    · have hzero : (list.length + 1 + 1 - j.toNat) / 2 = 0 := by omega
      rw [if_neg hj, hzero, Nat.min_zero, List.drop_zero]

/-- A packet whose count fits in `j` is taken off, unless the list ends before. -/
theorem subLoop_eq {total : Nat} (htotal : total ≤ 255) (j : UInt8) (hj : j.toNat ≤ total) :
    subLoop total j list = if total - j.toNat ≤ list.length then some (list.drop (total - j.toNat)) else none := by
  induction list generalizing j with
  | nil =>
    rw [subLoop, List.length_nil]
    by_cases hlt : j.toNat < total
    · rw [if_pos hlt, if_neg (by omega)]
    · rw [if_neg hlt, if_pos (by omega), List.drop_nil]
  | cons f list ih =>
    rw [subLoop, List.length_cons]
    by_cases hlt : j.toNat < total
    · have hnext := toNat_succ (j := j) (by omega)
      have hone : total - j.toNat = total - (j + 1).toNat + 1 := by omega
      rw [if_pos hlt, ih (j + 1) (by omega), hone, List.drop_succ_cons]
      simp only [Nat.add_le_add_iff_right]
    · have hzero : total - j.toNat = 0 := by omega
      rw [if_neg hlt, hzero, if_pos (Nat.zero_le _), List.drop_zero]

/-- A larger count is never reached. -/
theorem subLoop_large {total : Nat} (htotal : 255 < total) (j : UInt8) : subLoop total j list = none := by
  have hlt : ∀ j : UInt8, j.toNat < total := fun j => Nat.lt_of_lt_of_le j.toNat_lt htotal
  induction list generalizing j with
  | nil => rw [subLoop, if_pos (hlt j)]
  | cons f list ih => rw [subLoop, if_pos (hlt j), ih]

theorem packetLoop_eq {total fuel : Nat} (hpackets : packets ≤ 255) (htotal : total ≤ 255) (i : UInt8)
    (hi : i.toNat ≤ packets) (hfuel : packets - i.toNat < fuel) (hlen : (packets - i.toNat) * total ≤ list.length) :
    packetLoop packets total fuel i list = some (list.drop ((packets - i.toNat) * total)) := by
  induction fuel generalizing i list with
  | zero => cases hfuel
  | succ fuel ih =>
    rw [packetLoop]
    by_cases hlt : i.toNat < packets
    · have hnext := toNat_succ (j := i) (by omega)
      have hone : packets - i.toNat = packets - (i + 1).toNat + 1 := by omega
      rw [hone, Nat.add_mul, Nat.one_mul] at hlen
      have hzero : (0 : UInt8).toNat = 0 := rfl
      rw [if_pos hlt, subLoop_eq htotal 0 (Nat.zero_le _), hzero, Nat.sub_zero, if_pos (by omega), Option.bind_some,
        ih (i + 1) (by omega) (by omega) (by rw [List.length_drop]; omega), List.drop_drop, hone, Nat.add_mul, Nat.one_mul,
        Nat.add_comm total]
    · have hzero : packets - i.toNat = 0 := by omega
      rw [if_neg hlt, hzero, Nat.zero_mul, List.drop_zero]

/-- `i` never reaches a larger number of packets. -/
theorem packetLoop_large {total fuel : Nat} (hpackets : 255 < packets) (i : UInt8) :
    packetLoop packets total fuel i list = none := by
  induction fuel generalizing i list with
  | zero => rfl
  | succ fuel ih =>
    rw [packetLoop, if_pos (Nat.lt_of_lt_of_le i.toNat_lt hpackets)]
    cases subLoop total 0 list with
    | none => rfl
    | some list => exact ih (i + 1)

/-- The whole second part, behind its check. -/
theorem packetLoop_start {total : Nat} (htotal : total ≠ 0) (hlen : packets * total ≤ list.length) :
    packetLoop packets total (list.length + 1) 0 list =
      if packets = 0 ∨ packets ≤ 255 ∧ total ≤ 255 then some (list.drop (packets * total)) else none := by
  have hpackets : packets ≤ packets * total := Nat.le_mul_of_pos_right _ (Nat.pos_of_ne_zero htotal)
  have hzero : (0 : UInt8).toNat = 0 := rfl
  by_cases hnone : packets = 0
  · rw [if_pos (.inl hnone), hnone, packetLoop, hzero, if_neg (Nat.lt_irrefl 0), Nat.zero_mul, List.drop_zero]
  by_cases hmany : packets ≤ 255
  case neg => rw [packetLoop_large (by omega), if_neg (by omega)]
  by_cases hlarge : total ≤ 255
  case neg =>
    rw [packetLoop, hzero, if_pos (Nat.pos_of_ne_zero hnone), subLoop_large (by omega), if_neg (by omega)]
    rfl
  rw [packetLoop_eq hmany hlarge 0 (Nat.zero_le _) (by rw [hzero]; omega) (by rw [hzero]; exact hlen), hzero, Nat.sub_zero,
    if_pos (.inr ⟨hmany, hlarge⟩)]

/-! ## Whole packets -/

theorem countP_first {f : Frame} (h : f.First) (fs : List Frame) :
    (f :: fs).countP (fun f => decide f.First) = fs.countP (fun f => decide f.First) + 1 :=
  List.countP_cons_of_pos (p := fun f : Frame => decide f.First) (decide_eq_true h)

/-- Frames without copies are the rest of a packet and whole packets, as many as
there are first frames. -/
theorem exists_packets (h : ∀ f ∈ list, f.curSubSequenceNumber ≠ none) :
    ∃ (part : List Frame) (ps : List (List Frame)), list = part ++ ps.flatten ∧ (∀ f ∈ part, f.Later) ∧
      (∀ p ∈ ps, IsPacket p) ∧ ps.length = list.countP fun f => decide f.First := by
  induction list with
  | nil => exact ⟨[], [], rfl, by simp, by simp, rfl⟩
  | cons f list ih =>
    obtain ⟨part, ps, hlist, hpart, hps, hcount⟩ := ih fun g hg => h g (List.mem_cons_of_mem _ hg)
    obtain ⟨k, hk⟩ := Option.ne_none_iff_exists'.1 (h f List.mem_cons_self)
    cases k with
    | zero =>
      -- a first frame closes the packet behind it
      refine ⟨[], (f :: part) :: ps, by rw [hlist]; rfl, by simp, ?_, ?_⟩
      · intro p hp
        rcases List.mem_cons.1 hp with rfl | hp
        · exact ⟨hk, hpart⟩
        · exact hps p hp
      · rw [List.length_cons, hcount, countP_first hk]
    | succ k =>
      have hnot : ¬ f.First := by
        intro hfirst
        rw [Frame.First, hk] at hfirst
        cases hfirst
      refine ⟨f :: part, ps, by rw [hlist]; rfl, ?_, hps, ?_⟩
      · intro g hg
        rcases List.mem_cons.1 hg with rfl | hg
        · exact ⟨k, hk⟩
        · exact hpart g hg
      · rw [hcount, List.countP_cons_of_neg (by simpa using hnot)]

theorem Frame.Later.not_first {f : Frame} (h : f.Later) : ¬ f.First := by
  obtain ⟨k, hk⟩ := h
  intro hfirst
  rw [Frame.First, hk] at hfirst
  cases hfirst

theorem Frame.Later.numbered {f : Frame} (h : f.Later) : f.curSubSequenceNumber ≠ none := by
  obtain ⟨k, hk⟩ := h
  simp [hk]

theorem countP_later (h : ∀ f ∈ list, f.Later) : (list.countP fun f => decide f.First) = 0 :=
  List.countP_eq_zero.2 fun f hf => by simpa using (h f hf).not_first

/-- In whole packets are no copies, and a first frame for each. -/
theorem packets_level {ps : List (List Frame)} (h : ∀ p ∈ ps, IsPacket p) :
    (∀ f ∈ ps.flatten, f.curSubSequenceNumber ≠ none) ∧
      (ps.flatten.countP fun f => decide f.First) = ps.length := by
  induction ps with
  | nil => exact ⟨by simp, rfl⟩
  | cons p ps ih =>
    obtain ⟨hnumbered, hcount⟩ := ih fun q hq => h q (List.mem_cons_of_mem _ hq)
    have hp := h p List.mem_cons_self
    cases p with
    | nil => exact hp.elim
    | cons f fs =>
      obtain ⟨hfirst, hlater⟩ := hp
      constructor
      · intro g hg
        rw [List.flatten_cons, List.mem_append, List.mem_cons] at hg
        rcases hg with (rfl | hg) | hg
        · rw [hfirst]
          simp
        · exact (hlater g hg).numbered
        · exact hnumbered g hg
      · rw [List.flatten_cons, List.countP_append, hcount, countP_first hfirst, countP_later hlater, List.length_cons]
        omega

/-- What it is that `n` frames in front are the rest of a packet and whole packets. -/
theorem discardsWhole_iff (n : Nat) :
    DiscardsWhole packets list (.noError (list.drop n)) ↔ Level packets n list := by
  constructor
  · rintro ⟨part, ps, hlist, hpart, hps, hcount, hnext⟩
    have htake : list.take n = part ++ ps.flatten := by
      have happend : list.take n ++ list.drop n = (part ++ ps.flatten) ++ list.drop n := by
        rw [List.take_append_drop, List.append_assoc]
        exact hlist
      exact List.append_cancel_right happend
    obtain ⟨hnumbered, hfirsts⟩ := packets_level hps
    refine ⟨fun f hf => ?_, ?_, hnext⟩
    · rw [htake, List.mem_append] at hf
      exact hf.elim (fun hf => (hpart f hf).numbered) (hnumbered f)
    · rw [htake, List.countP_append, countP_later hpart, hfirsts, hcount, Nat.zero_add]
  · rintro ⟨hnumbered, hfirsts, hnext⟩
    obtain ⟨part, ps, htake, hpart, hps, hcount⟩ := exists_packets hnumbered
    refine ⟨part, ps, ?_, hpart, hps, hcount.trans hfirsts, hnext⟩
    rw [← List.append_assoc, ← htake, List.take_append_drop]

/-- A call does what it should exactly if the packets are level. -/
theorem discardsPacket_iff (hlen : list.length ≤ 510) :
    DiscardsWhole packets list (discardsPacket heap packets list) ↔ LevelPackets heap packets list := by
  have hle : lead heap list ≤ list.length := lead_le
  have hskip : skipLoop heap 0 list = _ := skipLoop_eq 0 (by rw [show (0 : UInt8).toNat = 0 from rfl]; omega)
  rw [show (0 : UInt8).toNat = 0 from rfl, Nat.sub_zero] at hskip
  unfold discardsPacket LevelPackets
  rw [hskip]
  by_cases hhalf : lead heap list ≤ (list.length + 1) / 2
  case neg =>
    -- the loop is left too early: a later frame is at the head
    rw [Nat.min_eq_right (by omega)]
    cases hdrop : list.drop ((list.length + 1) / 2) with
    | nil =>
      have := List.drop_eq_nil_iff.1 hdrop
      omega
    | cons f rest =>
      have hne := head_ne_of_lt_lead (Nat.lt_of_not_le hhalf) hdrop
      simp only [if_pos hne, DiscardsWhole, hhalf, false_and]
  rw [Nat.min_eq_left hhalf, and_iff_right hhalf]
  cases hdrop : list.drop (lead heap list) with
  | nil => simp [DiscardsWhole]
  | cons f rest =>
    have hrest : rest.length + 1 = list.length - lead heap list := by
      rw [← List.length_drop, hdrop, List.length_cons]
    have hzero := head_lead hdrop
    simp only [List.head?_cons, Option.some.injEq, forall_eq', hzero, ne_eq, not_true_eq_false, if_false]
    by_cases htotal : f.totalSub heap = 0
    · rw [if_pos htotal]
      exact ⟨False.elim, fun h => absurd htotal h.1⟩
    rw [if_neg htotal, and_iff_right htotal]
    by_cases hmany : packets ≤ (rest.length + 1) / f.totalSub heap
    · have hroom : packets * f.totalSub heap ≤ list.length - lead heap list :=
        hrest ▸ (Nat.le_div_iff_mul_le (Nat.pos_of_ne_zero htotal)).1 hmany
      have hloop : packetLoop packets (f.totalSub heap) ((f :: rest).length + 1) 0 (f :: rest) = _ :=
        packetLoop_start htotal (by rw [List.length_cons, hrest]; exact hroom)
      rw [List.length_cons] at hloop
      rw [if_pos hmany, hloop]
      by_cases hcounts : packets = 0 ∨ packets ≤ 255 ∧ f.totalSub heap ≤ 255
      · rw [if_pos hcounts, ← hdrop, List.drop_drop]
        simp only
        rw [discardsWhole_iff]
        exact ⟨fun h _ _ => h, fun h => h hcounts hroom⟩
      · rw [if_neg hcounts]
        exact ⟨fun _ hc => absurd hc hcounts, fun _ => trivial⟩
    · have hshort : ¬ packets * f.totalSub heap ≤ list.length - lead heap list := by
        rw [← hrest]
        exact fun h => hmany ((Nat.le_div_iff_mul_le (Nat.pos_of_ne_zero htotal)).2 h)
      rw [if_neg hmany]
      exact ⟨fun _ _ hroom => absurd hroom hshort, fun _ => trivial⟩

/-! ## Every list of a run -/

variable {P : Type} {parser : P → List UInt8 → Option UInt16 × P} {s s' : State P}

/-- How long a list can get: the copies keep to the limit, but not the frames
behind them. -/
def longest : Nat := mtuLimiter + frameListMax

theorem storePacket_longest (header : Header) (mem : Nat → UInt8) (buffer_bytes : Nat) (hs : s.list.length ≤ longest) :
    (storePacket parser s header mem buffer_bytes).2.list.length ≤ longest := by
  by_cases hnum : (mem 0).toNat = 0
  · rw [storePacket, if_pos hnum]
    exact hs
  by_cases hroom : s.list.length + (mem 0).toNat < mtuLimiter
  case neg =>
    rw [storePacket, if_neg hnum, if_neg hroom]
    exact hs
  rcases storePacket_taken parser header buffer_bytes hnum hroom with
    ⟨lens, recovered, frames, -, hshort, hframes, -, hlist, hrec, -⟩ | ⟨-, -, hlist, -⟩
  · have hcopies : s.list.length + recovered.length ≤ mtuLimiter := by
      rw [hrec, recoverCnt]
      split_ifs <;> omega
    rw [hlist, List.length_append, List.length_append, hframes, length_framesOf, longest]
    omega
  · rw [hlist]
    exact hs

theorem step_longest (e : Event) (hs : s.list.length ≤ longest) (h : step parser e s = some s') :
    s'.list.length ≤ longest := by
  cases e with
  | store header mem buffer_bytes =>
    obtain rfl := Option.some.inj h
    exact storePacket_longest header mem buffer_bytes hs
  | decode =>
    cases hlist : s.list with
    | nil => simp [step, hlist] at h
    | cons frame list =>
      obtain rfl : subframeFree { s with list } frame = s' := by simpa [step, hlist] using h
      rw [hlist, List.length_cons] at hs
      exact Nat.le_of_succ_le hs

/-- For every list that packets and the decoder can produce, every content of the
heap and every number of packets: a call does what it should exactly if the
packets are level. -/
theorem discards_iff (parser : P → List UInt8 → Option UInt16 × P) (s : State P) (evs : List Event)
    (hrun : Run (step parser) (fun _ _ => True) (fun s => s.list = []) s evs) (heap : Nat → UInt16 × UInt16)
    (packets : Nat) :
    DiscardsWhole packets s.list (discardsPacket heap packets s.list) ↔ LevelPackets heap packets s.list := by
  have hlongest : s.list.length ≤ longest :=
    hrun.inv (fun s => s.list.length ≤ longest) (fun s hs => by rw [hs]; exact Nat.zero_le _)
      fun e s s' hs _ h => step_longest e hs h
  have hsmall : longest ≤ 510 := by decide
  exact discardsPacket_iff (Nat.le_trans hlongest hsmall)

/-- A packet of three frames. -/
def threeFrames : Nat → UInt8 := bufferOf [3, 0x9C, 2, 0x9C, 2, 0x9C, 2]

/-- The state after some events. -/
def after (evs : List Event) : State Unit :=
  (runAll (step lengthParser) (fun _ _ => true) evs empty).getD empty

theorem after_run {evs : List Event} (h : runAll (step lengthParser) (fun _ _ => true) evs empty = some (after evs)) :
    Run (step lengthParser) (fun _ _ => True) (fun s => s.list = []) (after evs) evs := by
  have hstart : Run (step lengthParser) (fun _ _ => True) (fun s => s.list = []) empty [] := .nil rfl
  exact hstart.of_runAll (fun _ _ _ => trivial) h

/-- Of two packets the first frame is decoded, and a packet is discarded. -/
theorem discards_iff_two :
    let evs := [.store ⟨0, 0⟩ threeFrames 7, .store ⟨1, 384⟩ threeFrames 7, .decode]
    DiscardsWhole 1 (after evs).list (discardsPacket (fun _ => (0, 0)) 1 (after evs).list) ↔
      LevelPackets (fun _ => (0, 0)) 1 (after evs).list :=
  discards_iff lengthParser _ [.store ⟨0, 0⟩ threeFrames 7, .store ⟨1, 384⟩ threeFrames 7, .decode]
    (after_run rfl) (fun _ => (0, 0)) 1

/-- Of the only packet two frames are left: the assertion fails. Behind a packet
are the copies for a lost one, in blocks that hold zeros: the number to divide by
is zero. -/
theorem discards_wrong :
    (∃ evs s, Run (step lengthParser) (fun _ _ => True) (fun s => s.list = []) s evs ∧
      discardsPacket (fun _ => (0, 0)) 1 s.list = .assertion) ∧
    (∃ evs s, Run (step lengthParser) (fun _ _ => True) (fun s => s.list = []) s evs ∧
      discardsPacket (fun _ => (0, 0)) 1 s.list = .divisionByZero) ∧
    ∀ list, ¬ DiscardsWhole 1 list .assertion ∧ ¬ DiscardsWhole 1 list .divisionByZero := by
  refine ⟨⟨[.store ⟨0, 0⟩ threeFrames 7, .decode], _, after_run rfl, rfl⟩,
    ⟨[.store ⟨0, 0⟩ threeFrames 7, .store ⟨2, 768⟩ threeFrames 7, .decode, .decode, .decode], _, after_run rfl, rfl⟩,
    fun list => ⟨id, id⟩⟩

end A2dp.Sbc
