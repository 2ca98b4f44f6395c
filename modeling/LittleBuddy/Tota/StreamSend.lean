import LittleBuddy.Lib.Bytes
import LittleBuddy.Lib.NorMem
import LittleBuddy.Lib.Runs
/-!
# The slots of the senders

`app_tota_send_data_via_spp` and `_tota_send_stream_packet` of
`services/tota/tota_stream_data_transfer.cpp`: threads that take a semaphore,
copy a packet into the current of five slots, send the slot and advance the
index. The transport reads a slot until it says that the packet is out.

Both functions begin with a release of the mutex where a wait is meant, so the
steps of two threads mix. A slot is safe when no thread copies while another
one is between its copy and its advance.

A `none` is a step that cannot happen, or one that writes behind an array.
-/
open Bytes NorMem Runs

namespace Tota.Spp

/-- `MAX_SPP_PACKET_SIZE`, `SPP_BUFFER_NUM`, `ENCRYPT_KEY_SIZE`. -/
abbrev maxSppPacketSize : Nat := 666
abbrev sppBufferNum : Nat := 5
abbrev encryptKeySize : Nat := 16

/-- A call of one of the two senders. -/
inductive Call where
  /-- `app_tota_send_data_via_spp`. -/
  | data (pdata : List UInt8)
  /-- `_tota_send_stream_packet`, of the bytes behind the header. -/
  | stream (body : List UInt8)
  deriving DecidableEq

/-- Where a thread is. The calls and the bytes that it supplies are kept to say
what becomes of them. -/
inductive Stage where
  | idle
  /-- Behind `osSemaphoreWait`. -/
  | waited (c : Call)
  /-- `pbuf` and `bufLen` are set; `encrypted`: `pbuf` is `encrypt_data`. -/
  | packed (c : Call) (encrypted : Bool) (packet : List UInt8)
  /-- Behind the `memcpy`. -/
  | copied (c : Call) (packet : List UInt8)
  /-- Behind `app_spp_tota_send_data`. -/
  | returned (sent : Bool)
  deriving DecidableEq

/-- A packet that the transport has not reported as sent. -/
structure InFlight where
  slot : Nat
  len : Nat
  packet : List UInt8

/-- The variables of the module, its threads, and what went through it. -/
structure SppSender where
  sem : Nat
  tx_buf_index : Nat
  spp_tx_buffer : Nat → UInt8
  encrypt_data : Nat → UInt8
  isTotaSppConnected : Bool
  isTotaConnected : Bool
  module : UInt8
  threads : List Stage
  inFlight : List InFlight
  /-- The bytes that the transport has read. -/
  transmitted : List (List UInt8)
  /-- The calls that succeed. -/
  accepted : List (Call × List UInt8)

/-- `OP_TOTA_STRING`, in memory. -/
def opTotaString : List UInt8 := [0x00, 0x10]

/-- The address of a slot, as in `_get_tx_buf_ptr`. -/
def slotAt (index : Nat) : Nat := index * maxSppPacketSize

/-- `outLen` of `tota_encrypt_packet`. -/
def encryptLen (inLen : Nat) : Nat :=
  inLen / encryptKeySize * encryptKeySize + if inLen % encryptKeySize ≠ 0 then encryptKeySize else 0

section

-- `AES128_CBC_encrypt_buffer` with the key of the connection.
variable (encrypt : List UInt8 → List UInt8)

/-- The bytes of an encrypted packet. -/
def encryptPacket (pdata : List UInt8) : List UInt8 := read (bufferOf (encrypt pdata)) 0 (encryptLen pdata.length)

/-- The packet is to be encrypted. -/
def Call.encrypts (isTotaConnected : Bool) : Call → Bool
  | data pdata => pdata.take 2 ≠ opTotaString ∧ isTotaConnected
  | stream _ => false

/-- The bytes that a call supplies: its data, encrypted if TOTA is connected and
they are not a string, or a stream packet with its header. -/
def Call.packet (isTotaConnected : Bool) (module : UInt8) (c : Call) : List UInt8 :=
  match c with
  | data pdata => if c.encrypts isTotaConnected then encryptPacket encrypt pdata else pdata
  | stream body => leBytes 2 (0xFFFF - module.toNat) ++ body

/-- A step of a thread, or an event. -/
inductive Event where
  | call (i : Nat) (c : Call)
  | pack (i : Nat)
  | copy (i : Nat)
  | send (i : Nat)
  | finish (i : Nat)
  /-- `app_tota_tx_done_callback`, in the order of the packets. -/
  | txDone
  | sppConnected (isConnected : Bool)
  | totaConnected (isConnected : Bool)
  /-- `app_tota_stream_data_start`. -/
  | streamStart (module : UInt8)

/-- What a step does. -/
def SppSender.step : Event → SppSender → Option SppSender
  | .call i c, s =>
    match s.threads[i]? with
    | some .idle =>
      if s.sem > 0 then some { s with sem := s.sem - 1, threads := s.threads.set i (.waited c) } else none
    | _ => none
  | .pack i, s =>
    match s.threads[i]? with
    | some (.waited c) =>
      let packet := c.packet encrypt s.isTotaConnected s.module
      let threads := s.threads.set i (.packed c (c.encrypts s.isTotaConnected) packet)
      if c.encrypts s.isTotaConnected then
        if packet.length ≤ maxSppPacketSize then
          some { s with encrypt_data := memcpy s.encrypt_data 0 (bufferOf packet) packet.length, threads := threads }
        else none
      else some { s with threads := threads }
    | _ => none
  | .copy i, s =>
    match s.threads[i]? with
    | some (.packed c encrypted packet) =>
      let pbuf := if encrypted then s.encrypt_data else bufferOf packet
      if slotAt s.tx_buf_index + packet.length ≤ maxSppPacketSize * sppBufferNum then
        some { s with
          spp_tx_buffer := memcpy s.spp_tx_buffer (slotAt s.tx_buf_index) pbuf packet.length
          threads := s.threads.set i (.copied c packet) }
      else none
    | _ => none
  | .send i, s =>
    match s.threads[i]? with
    | some (.copied c packet) =>
      if s.isTotaSppConnected then
        -- the length is passed as 16 bits
        some { s with
          inFlight := s.inFlight ++ [⟨s.tx_buf_index, packet.length % 2 ^ 16, packet⟩]
          accepted := s.accepted ++ [(c, packet)]
          threads := s.threads.set i (.returned true) }
      else some { s with threads := s.threads.set i (.returned false) }
    | _ => none
  | .finish i, s =>
    match s.threads[i]? with
    | some (.returned true) =>
      some { s with tx_buf_index := (s.tx_buf_index + 1) % 5, threads := s.threads.set i .idle }
    | some (.returned false) => some { s with sem := s.sem + 1, threads := s.threads.set i .idle }
    | _ => none
  | .txDone, s =>
    match s.inFlight with
    | p :: rest =>
      some { s with
        inFlight := rest
        transmitted := s.transmitted ++ [read s.spp_tx_buffer (slotAt p.slot) p.len]
        sem := s.sem + 1 }
    | [] => none
  | .sppConnected b, s => some { s with isTotaSppConnected := b }
  | .totaConnected b, s => some { s with isTotaConnected := b }
  | .streamStart m, s => some { s with module := m }

/-- `app_tota_stream_data_transfer_init`, with any number of threads. -/
def SppSender.init (s : SppSender) : Prop :=
  s.sem = sppBufferNum ∧ s.tx_buf_index = 0 ∧ (∀ t ∈ s.threads, t = .idle) ∧ s.inFlight = [] ∧ s.transmitted = [] ∧
    s.accepted = []

/-- A thread whose packet is in the current slot. -/
def Stage.occupies : Stage → Bool
  | copied _ _ | returned true => true
  | _ => false

/-- A thread whose packet is in `encrypt_data`. -/
def Stage.usesEncryptData : Stage → Bool
  | packed _ true _ => true
  | _ => false

/-- No thread but `i` is at such a stage. -/
def SppSender.Alone (s : SppSender) (i : Nat) (p : Stage → Bool) : Prop :=
  ∀ j t, j ≠ i → s.threads[j]? = some t → p t = false

/-- What a working mutex would see to, and that the packet fits into a slot. -/
def SppSender.Serial : Event → SppSender → Prop
  | .pack i, s => ∀ c, s.threads[i]? = some (.waited c) → c.encrypts s.isTotaConnected →
      s.Alone i Stage.usesEncryptData
  | .copy i, s => s.Alone i Stage.occupies ∧
      ∀ c encrypted packet, s.threads[i]? = some (.packed c encrypted packet) → packet.length ≤ maxSppPacketSize
  | _, _ => True

end

/-! ## The steps -/

variable {encrypt : List UInt8 → List UInt8} {s s' : SppSender} {i : Nat}

theorem step_call {c : Call} (h : SppSender.step encrypt (.call i c) s = some s') :
    s.threads[i]? = some .idle ∧ s.sem > 0 ∧ s' = { s with sem := s.sem - 1, threads := s.threads.set i (.waited c) } := by
  simp only [SppSender.step] at h
  split at h
  · rename_i hi
    split_ifs at h with hsem
    exact ⟨hi, hsem, (Option.some.inj h).symm⟩
  · cases h

theorem step_pack (h : SppSender.step encrypt (.pack i) s = some s') :
    ∃ c, s.threads[i]? = some (.waited c) ∧ s'.threads = s.threads.set i
        (.packed c (c.encrypts s.isTotaConnected) (c.packet encrypt s.isTotaConnected s.module)) ∧
      s' = { s with threads := s'.threads, encrypt_data := s'.encrypt_data } ∧
      (c.encrypts s.isTotaConnected = true → s'.encrypt_data =
        memcpy s.encrypt_data 0 (bufferOf (c.packet encrypt s.isTotaConnected s.module))
          (c.packet encrypt s.isTotaConnected s.module).length) ∧
      (c.encrypts s.isTotaConnected = false → s'.encrypt_data = s.encrypt_data) := by
  simp only [SppSender.step] at h
  split at h
  · rename_i c hi
    refine ⟨c, hi, ?_⟩
    split_ifs at h with henc hlen
    · obtain rfl := Option.some.inj h
      exact ⟨rfl, rfl, fun _ => rfl, fun hf => by simp [henc] at hf⟩
    · obtain rfl := Option.some.inj h
      exact ⟨rfl, rfl, fun hf => absurd hf henc, fun _ => rfl⟩
  · cases h

theorem step_copy (h : SppSender.step encrypt (.copy i) s = some s') :
    ∃ c encrypted packet, s.threads[i]? = some (.packed c encrypted packet) ∧ s' = { s with
      spp_tx_buffer := memcpy s.spp_tx_buffer (slotAt s.tx_buf_index)
        (if encrypted then s.encrypt_data else bufferOf packet) packet.length
      threads := s.threads.set i (.copied c packet) } := by
  simp only [SppSender.step] at h
  split at h
  · rename_i c encrypted packet hi
    refine ⟨c, encrypted, packet, hi, ?_⟩
    by_cases hfit : slotAt s.tx_buf_index + packet.length ≤ maxSppPacketSize * sppBufferNum
    · rw [if_pos hfit] at h
      exact (Option.some.inj h).symm
    · rw [if_neg hfit] at h
      cases h
  · cases h

theorem step_send (h : SppSender.step encrypt (.send i) s = some s') :
    ∃ c packet, s.threads[i]? = some (.copied c packet) ∧
      (s' = { s with
        inFlight := s.inFlight ++ [⟨s.tx_buf_index, packet.length % 2 ^ 16, packet⟩]
        accepted := s.accepted ++ [(c, packet)]
        threads := s.threads.set i (.returned true) } ∨
      s' = { s with threads := s.threads.set i (.returned false) }) := by
  simp only [SppSender.step] at h
  split at h
  · rename_i c packet hi
    refine ⟨c, packet, hi, ?_⟩
    split_ifs at h
    · exact .inl (Option.some.inj h).symm
    · exact .inr (Option.some.inj h).symm
  · cases h

theorem step_finish (h : SppSender.step encrypt (.finish i) s = some s') :
    (s.threads[i]? = some (.returned true) ∧
      s' = { s with tx_buf_index := (s.tx_buf_index + 1) % 5, threads := s.threads.set i .idle }) ∨
    (s.threads[i]? = some (.returned false) ∧ s' = { s with sem := s.sem + 1, threads := s.threads.set i .idle }) := by
  simp only [SppSender.step] at h
  split at h
  · rename_i hi
    exact .inl ⟨hi, (Option.some.inj h).symm⟩
  · rename_i hi
    exact .inr ⟨hi, (Option.some.inj h).symm⟩
  · cases h

theorem step_txDone (h : SppSender.step encrypt .txDone s = some s') :
    ∃ p rest, s.inFlight = p :: rest ∧ s' = { s with
      inFlight := rest
      transmitted := s.transmitted ++ [read s.spp_tx_buffer (slotAt p.slot) p.len]
      sem := s.sem + 1 } := by
  simp only [SppSender.step] at h
  split at h
  · rename_i p rest hp
    exact ⟨p, rest, hp, (Option.some.inj h).symm⟩
  · cases h

/-! ## Threads -/

variable {threads : List Stage} {t t' u : Stage} {j : Nat}

/-- A thread after one thread has moved. -/
theorem thread_of_set (h : (threads.set i t)[j]? = some u) : (j = i ∧ u = t) ∨ (j ≠ i ∧ threads[j]? = some u) := by
  rw [List.getElem?_set] at h
  split_ifs at h with hij
  · exact .inl ⟨hij.symm, (Option.some.inj h).symm⟩
  · exact .inr ⟨fun he => hij he.symm, h⟩

/-- A thread that holds a token of the semaphore. -/
def Stage.holds : Stage → Bool
  | waited _ | packed _ _ _ | copied _ _ | returned false => true
  | idle | returned true => false

/-- The tokens held, after one thread has moved. -/
theorem countP_holds (t' : Stage) (h : threads[i]? = some t) :
    (threads.set i t').countP Stage.holds + t.holds.toNat = threads.countP Stage.holds + t'.holds.toNat := by
  obtain ⟨hi, rfl⟩ := List.getElem?_eq_some_iff.1 h
  have hle : threads[i].holds.toNat ≤ threads.countP Stage.holds := by
    cases hp : threads[i].holds
    · exact Nat.zero_le _
    · exact List.countP_pos_iff.2 ⟨_, List.getElem_mem hi, hp⟩
  have hnat : ∀ b : Bool, (if b = true then 1 else 0) = b.toNat := by decide
  rw [List.countP_set hi, hnat, hnat]
  omega

/-- At most one thread is at such a stage. -/
def Unique (p : Stage → Bool) (threads : List Stage) : Prop :=
  ∀ (i j : Nat) (t u : Stage), threads[i]? = some t → threads[j]? = some u → p t = true → p u = true → i = j

theorem Unique.set {p : Stage → Bool} (h : Unique p threads) (hi : threads[i]? = some t)
    (ht : p t' = true → p t = true) : Unique p (threads.set i t') := by
  -- a thread at the stage was there before
  have hback : ∀ (j : Nat) u, (threads.set i t')[j]? = some u → p u = true → ∃ v, threads[j]? = some v ∧ p v = true := by
    intro j u hj hu
    rcases thread_of_set hj with ⟨rfl, rfl⟩ | ⟨-, hj⟩
    · exact ⟨t, hi, ht hu⟩
    · exact ⟨u, hj, hu⟩
  intro j k u v hj hk hu hv
  obtain ⟨u', hj', hu'⟩ := hback j u hj hu
  obtain ⟨v', hk', hv'⟩ := hback k v hk hv
  exact h j k u' v' hj' hk' hu' hv'

theorem SppSender.Alone.unique {p : Stage → Bool} (h : s.Alone i p) : Unique p (s.threads.set i t') := by
  have hi : ∀ (j : Nat) u, (s.threads.set i t')[j]? = some u → p u = true → j = i := by
    intro j u hj hu
    rcases thread_of_set hj with ⟨rfl, -⟩ | ⟨hne, hj⟩
    · rfl
    · rw [h j u hne hj] at hu
      cases hu
  intro j k u v hj hk hu hv
  rw [hi j u hj hu, hi k v hk hv]

/-! ## The invariant -/

/-- The tokens and the slots: a token is free, held by a thread, or given to a
packet in flight, and the packets in flight take the slots in turn. -/
structure SppSender.Slots (s : SppSender) : Prop where
  tokens : s.sem + s.inFlight.length + s.threads.countP Stage.holds = 5
  index_lt : s.tx_buf_index < 5
  index : (∀ i : Nat, s.threads[i]? ≠ some (.returned true)) → s.tx_buf_index = s.accepted.length % 5
  index_sent : ∀ i : Nat, s.threads[i]? = some (.returned true) → (s.tx_buf_index + 1) % 5 = s.accepted.length % 5
  slots : ∀ (j : Nat) p, s.inFlight[j]? = some p → p.slot = (s.transmitted.length + j) % 5
  count : s.transmitted.length + s.inFlight.length = s.accepted.length
  one : Unique Stage.occupies s.threads

/-- With a token in hand and no other thread at the slot, the current slot is free. -/
theorem SppSender.Slots.free (h : s.Slots) (hi : s.threads[i]? = some t) (ht : t.holds = true)
    (ha : ∀ j : Nat, s.threads[j]? ≠ some (.returned true)) {p : InFlight} (hp : p ∈ s.inFlight) :
    p.slot ≠ s.tx_buf_index := by
  have hpos : 0 < s.threads.countP Stage.holds := List.countP_pos_iff.2 ⟨t, List.mem_of_getElem? hi, ht⟩
  obtain ⟨j, hj⟩ := List.mem_iff_getElem?.1 hp
  have hjlt := (List.getElem?_eq_some_iff.1 hj).1
  have htok := h.tokens
  have hcount := h.count
  rw [h.slots j p hj, h.index ha]
  omega

/-- A thread moves, and neither the index nor the packets do. -/
theorem SppSender.Slots.move (h : s.Slots) (hi : s.threads[i]? = some t) (ht : t ≠ .returned true)
    (ht' : t' ≠ .returned true) (hu : Unique Stage.occupies (s.threads.set i t'))
    (hthreads : s'.threads = s.threads.set i t') (hindex : s'.tx_buf_index = s.tx_buf_index)
    (hsem : s'.sem + t'.holds.toNat = s.sem + t.holds.toNat) (hin : s'.inFlight = s.inFlight)
    (htr : s'.transmitted = s.transmitted) (hacc : s'.accepted = s.accepted) : s'.Slots := by
  have hback : ∀ j : Nat, s'.threads[j]? = some (.returned true) → s.threads[j]? = some (.returned true) := by
    intro j hj
    rw [hthreads] at hj
    rcases thread_of_set hj with ⟨-, he⟩ | ⟨-, hj⟩
    · exact absurd he.symm ht'
    · exact hj
  have hforth : ∀ j : Nat, s.threads[j]? = some (.returned true) → s'.threads[j]? = some (.returned true) := by
    intro j hj
    have hne : i ≠ j := by
      rintro rfl
      rw [hi] at hj
      exact ht (Option.some.inj hj)
    rw [hthreads, List.getElem?_set_ne hne, hj]
  constructor
  · have := countP_holds t' hi
    have := h.tokens
    rw [hin, hthreads]
    omega
  · exact hindex ▸ h.index_lt
  · intro hf
    rw [hindex, hacc]
    exact h.index fun j hj => hf j (hforth j hj)
  · intro j hj
    rw [hindex, hacc]
    exact h.index_sent j (hback j hj)
  · rw [hin, htr]
    exact h.slots
  · rw [hin, htr, hacc]
    exact h.count
  · rwa [hthreads]

/-- A thread that has copied is the only one at the slot. -/
theorem SppSender.Slots.index_copied (h : s.Slots) (hi : s.threads[i]? = some t) (ht : t.occupies = true)
    (hne : t ≠ .returned true) : s.tx_buf_index = s.accepted.length % 5 := by
  apply h.index
  intro j hj
  obtain rfl := h.one i j t _ hi hj ht rfl
  rw [hi] at hj
  exact hne (Option.some.inj hj)

theorem SppSender.Slots.sent (h : s.Slots) {c : Call} {packet : List UInt8} {p : InFlight}
    (hi : s.threads[i]? = some (.copied c packet)) (hp : p.slot = s.tx_buf_index) :
    SppSender.Slots { s with
      inFlight := s.inFlight ++ [p]
      accepted := s.accepted ++ [(c, packet)]
      threads := s.threads.set i (.returned true) } := by
  have hindex := h.index_copied hi rfl (by simp)
  have hcount := h.count
  constructor
  · have hholds := countP_holds (.returned true) hi
    have htok := h.tokens
    simp only [Stage.holds, Bool.toNat_true, Bool.toNat_false] at hholds
    simp only [List.length_append, List.length_singleton]
    omega
  · exact h.index_lt
  · intro hf
    refine absurd ?_ (hf i)
    exact List.getElem?_set_self (List.getElem?_eq_some_iff.1 hi).1
  · intro j _
    simp only [List.length_append, List.length_singleton]
    omega
  · intro j q hq
    simp only at hq ⊢
    rw [List.getElem?_append] at hq
    split_ifs at hq with hj
    · exact h.slots j q hq
    · obtain ⟨hj', rfl⟩ := List.getElem?_eq_some_iff.1 hq
      simp only [List.length_singleton] at hj'
      simp only [List.getElem_singleton, hp]
      omega
  · simp only [List.length_append, List.length_singleton]
    omega
  · exact h.one.set hi fun _ => rfl

theorem SppSender.Slots.advance (h : s.Slots) (hi : s.threads[i]? = some (.returned true)) :
    SppSender.Slots { s with tx_buf_index := (s.tx_buf_index + 1) % 5, threads := s.threads.set i .idle } := by
  have hindex := h.index_sent i hi
  have hother : ∀ j : Nat, (s.threads.set i .idle)[j]? ≠ some (.returned true) := by
    intro j hj
    rcases thread_of_set hj with ⟨-, he⟩ | ⟨hne, hj⟩
    · cases he
    · exact hne (h.one i j _ _ hi hj rfl rfl).symm
  constructor
  · have hholds := countP_holds .idle hi
    have htok := h.tokens
    simp only [Stage.holds] at hholds
    simp only
    omega
  · exact Nat.mod_lt _ (by decide)
  · intro _
    exact hindex
  · intro j hj
    exact absurd hj (hother j)
  · exact h.slots
  · exact h.count
  · exact h.one.set hi (by simp [Stage.occupies])

theorem SppSender.Slots.step {e : Event} (h : s.Slots) (hc : s.Serial e) (hs : s.step encrypt e = some s') :
    s'.Slots := by
  cases e with
  | call i c =>
    obtain ⟨hi, hsem, rfl⟩ := step_call hs
    refine h.move hi (by simp) (by simp) (h.one.set hi (by simp [Stage.occupies])) rfl rfl ?_ rfl rfl rfl
    simp only [Stage.holds, Bool.toNat_true, Bool.toNat_false]
    omega
  | pack i =>
    obtain ⟨c, hi, hthreads, hs', -⟩ := step_pack hs
    rw [hs']
    exact h.move hi (by simp) (by simp) (h.one.set hi (by simp [Stage.occupies])) hthreads rfl rfl rfl rfl rfl
  | copy i =>
    obtain ⟨c, encrypted, packet, hi, rfl⟩ := step_copy hs
    exact h.move hi (by simp) (by simp) hc.1.unique rfl rfl rfl rfl rfl rfl
  | send i =>
    obtain ⟨c, packet, hi, hs' | hs'⟩ := step_send hs
    · subst hs'
      exact h.sent hi rfl
    · subst hs'
      exact h.move hi (by simp) (by simp) (h.one.set hi (by simp [Stage.occupies])) rfl rfl rfl rfl rfl rfl
  | finish i =>
    rcases step_finish hs with ⟨hi, rfl⟩ | ⟨hi, rfl⟩
    · exact h.advance hi
    · refine h.move hi (by simp) (by simp) (h.one.set hi (by simp [Stage.occupies])) rfl rfl ?_ rfl rfl rfl
      simp [Stage.holds]
  | txDone =>
    obtain ⟨p, rest, hp, rfl⟩ := step_txDone hs
    have htok := h.tokens
    have hcount := h.count
    rw [hp, List.length_cons] at htok hcount
    refine ⟨?_, h.index_lt, h.index, h.index_sent, ?_, ?_, h.one⟩
    · simp only
      omega
    · intro j q hq
      rw [h.slots (j + 1) q (by rw [hp]; exact hq)]
      simp only [List.length_append, List.length_singleton]
      omega
    · simp only [List.length_append, List.length_singleton]
      omega
  | sppConnected b =>
    obtain rfl := Option.some.inj hs
    exact ⟨h.tokens, h.index_lt, h.index, h.index_sent, h.slots, h.count, h.one⟩
  | totaConnected b =>
    obtain rfl := Option.some.inj hs
    exact ⟨h.tokens, h.index_lt, h.index, h.index_sent, h.slots, h.count, h.one⟩
  | streamStart m =>
    obtain rfl := Option.some.inj hs
    exact ⟨h.tokens, h.index_lt, h.index, h.index_sent, h.slots, h.count, h.one⟩

/-! ## The bytes -/

theorem read_memcpy {m src : Nat → UInt8} {a n : Nat} : read (memcpy m a src n) a n = read src 0 n := by
  apply List.map_congr_left
  intro j hj
  have := List.mem_range.1 hj
  rw [memcpy_of ⟨by omega, by omega⟩]
  congr 1
  omega

/-- No step writes to a slot in flight. -/
theorem SppSender.Slots.frozen {e : Event} (h : s.Slots) (hc : s.Serial e) (hs : s.step encrypt e = some s')
    {p : InFlight} (hp : p ∈ s.inFlight) {a : Nat} (ha : InRange (slotAt p.slot) maxSppPacketSize a) :
    s'.spp_tx_buffer a = s.spp_tx_buffer a := by
  cases e with
  | copy i =>
    obtain ⟨c, encrypted, packet, hi, rfl⟩ := step_copy hs
    have hlen := hc.2 c encrypted packet hi
    have hfree : p.slot ≠ s.tx_buf_index := by
      refine h.free hi rfl ?_ hp
      intro j hj
      by_cases hji : j = i
      · rw [hji, hi] at hj
        cases hj
      · exact absurd (hc.1 j _ hji hj) (by simp [Stage.occupies])
    apply memcpy_other
    intro hr
    simp only [InRange, slotAt, maxSppPacketSize] at ha hr hlen
    omega
  | call i c =>
    obtain ⟨-, -, rfl⟩ := step_call hs
    rfl
  | pack i =>
    obtain ⟨c, -, -, hs', -⟩ := step_pack hs
    rw [hs']
  | send i =>
    obtain ⟨c, packet, -, rfl | rfl⟩ := step_send hs <;> rfl
  | finish i =>
    rcases step_finish hs with ⟨-, rfl⟩ | ⟨-, rfl⟩ <;> rfl
  | txDone =>
    obtain ⟨q, rest, -, rfl⟩ := step_txDone hs
    rfl
  | sppConnected b | totaConnected b | streamStart m =>
    obtain rfl := Option.some.inj hs
    rfl

/-- A call supplies these bytes, at some moment. -/
def Call.Supplies (encrypt : List UInt8 → List UInt8) (c : Call) (packet : List UInt8) : Prop :=
  ∃ isTotaConnected module, packet = c.packet encrypt isTotaConnected module

/-- The call and the bytes of a thread, behind `pbuf`. -/
def Stage.packet? : Stage → Option (Call × List UInt8)
  | packed c _ packet | copied c packet => some (c, packet)
  | _ => none

/-- Every buffer holds what its owner put there. -/
structure SppSender.Filled (encrypt : List UInt8 → List UInt8) (s : SppSender) : Prop where
  inFlight : ∀ p ∈ s.inFlight, p.packet.length ≤ maxSppPacketSize ∧ p.len = p.packet.length ∧
    read s.spp_tx_buffer (slotAt p.slot) p.len = p.packet
  copied : ∀ (i : Nat) c packet, s.threads[i]? = some (.copied c packet) → packet.length ≤ maxSppPacketSize ∧
    read s.spp_tx_buffer (slotAt s.tx_buf_index) packet.length = packet
  encrypted : ∀ (i : Nat) c packet, s.threads[i]? = some (.packed c true packet) →
    read s.encrypt_data 0 packet.length = packet
  oneEncrypted : Unique Stage.usesEncryptData s.threads
  transmitted : s.transmitted ++ s.inFlight.map InFlight.packet = s.accepted.map Prod.snd
  supplied : ∀ x ∈ s.accepted, x.1.Supplies encrypt x.2
  packets : ∀ (i : Nat) t x, s.threads[i]? = some t → t.packet? = some x → x.1.Supplies encrypt x.2

/-- A thread moves to a stage without a packet. -/
theorem SppSender.Filled.clear (h : s.Filled encrypt) (hi : s.threads[i]? = some t) (hp : t'.packet? = none)
    (hthreads : s'.threads = s.threads.set i t') (hbuf : s'.spp_tx_buffer = s.spp_tx_buffer)
    (henc : s'.encrypt_data = s.encrypt_data) (hin : s'.inFlight = s.inFlight)
    (htr : s'.transmitted = s.transmitted) (hacc : s'.accepted = s.accepted)
    (hindex : ∀ (j : Nat) c packet, s.threads[j]? = some (.copied c packet) → j ≠ i →
      s'.tx_buf_index = s.tx_buf_index) : s'.Filled encrypt := by
  constructor
  · rw [hin, hbuf]
    exact h.inFlight
  · intro j c packet hj
    rw [hthreads] at hj
    rcases thread_of_set hj with ⟨-, rfl⟩ | ⟨hji, hj⟩
    · cases hp
    · rw [hbuf, hindex j c packet hj hji]
      exact h.copied j c packet hj
  · intro j c packet hj
    rw [hthreads] at hj
    rcases thread_of_set hj with ⟨-, rfl⟩ | ⟨-, hj⟩
    · cases hp
    · rw [henc]
      exact h.encrypted j c packet hj
  · rw [hthreads]
    refine h.oneEncrypted.set hi ?_
    cases t' <;> simp_all [Stage.packet?, Stage.usesEncryptData]
  · rw [htr, hin, hacc]
    exact h.transmitted
  · rw [hacc]
    exact h.supplied
  · intro j u x hj hx
    rw [hthreads] at hj
    rcases thread_of_set hj with ⟨-, rfl⟩ | ⟨-, hj⟩
    · rw [hp] at hx
      cases hx
    · exact h.packets j u x hj hx

theorem SppSender.Filled.pack (h : s.Filled encrypt) (hc : s.Serial (.pack i))
    (hs : s.step encrypt (.pack i) = some s') : s'.Filled encrypt := by
  obtain ⟨c, hi, hthreads, hs', henc, hplain⟩ := step_pack hs
  have hbuf : s'.spp_tx_buffer = s.spp_tx_buffer := by rw [hs']
  have hindex : s'.tx_buf_index = s.tx_buf_index := by rw [hs']
  have hin : s'.inFlight = s.inFlight := by rw [hs']
  have htr : s'.transmitted = s.transmitted := by rw [hs']
  have hacc : s'.accepted = s.accepted := by rw [hs']
  constructor
  · rw [hin, hbuf]
    exact h.inFlight
  · intro j c' packet hj
    rw [hthreads] at hj
    rcases thread_of_set hj with ⟨-, he⟩ | ⟨-, hj⟩
    · cases he
    · rw [hbuf, hindex]
      exact h.copied j c' packet hj
  · intro j c' packet hj
    rw [hthreads] at hj
    rcases thread_of_set hj with ⟨-, he⟩ | ⟨hji, hj⟩
    · obtain ⟨rfl, hencrypts, rfl⟩ := Stage.packed.inj he
      rw [henc hencrypts.symm, read_memcpy, read_bufferOf_self]
    · -- another packet is in `encrypt_data`: this call may not use it
      have hplain' : c.encrypts s.isTotaConnected = false := by
        by_contra hne
        rw [Bool.not_eq_false] at hne
        have := hc c hi hne j _ hji hj
        simp [Stage.usesEncryptData] at this
      rw [hplain hplain']
      exact h.encrypted j c' packet hj
  · rw [hthreads]
    cases he : c.encrypts s.isTotaConnected with
    | true => exact (hc c hi he).unique
    | false => exact h.oneEncrypted.set hi (by simp [Stage.usesEncryptData])
  · rw [htr, hin, hacc]
    exact h.transmitted
  · rw [hacc]
    exact h.supplied
  · intro j u x hj hx
    rw [hthreads] at hj
    rcases thread_of_set hj with ⟨-, rfl⟩ | ⟨-, hj⟩
    · cases hx
      exact ⟨_, _, rfl⟩
    · exact h.packets j u x hj hx

theorem SppSender.Filled.copy (hsl : s.Slots) (h : s.Filled encrypt) (hc : s.Serial (.copy i))
    (hs : s.step encrypt (.copy i) = some s') : s'.Filled encrypt := by
  have hfrozen := fun p (hp : p ∈ s.inFlight) x hx => hsl.frozen (a := x) hc hs hp hx
  obtain ⟨c, encrypted, packet, hi, rfl⟩ := step_copy hs
  have hsource : read (if encrypted then s.encrypt_data else bufferOf packet) 0 packet.length = packet := by
    cases encrypted with
    | true => exact h.encrypted i c packet hi
    | false => exact read_bufferOf_self packet
  constructor
  · intro p hp
    obtain ⟨hlen, he, hread⟩ := h.inFlight p hp
    refine ⟨hlen, he, ?_⟩
    rw [read_congr fun x hx hx' => hfrozen p hp x ⟨hx, by omega⟩, hread]
  · intro j c' packet' hj
    rcases thread_of_set hj with ⟨-, he⟩ | ⟨hji, hj⟩
    · obtain ⟨rfl, rfl⟩ := Stage.copied.inj he
      exact ⟨hc.2 _ _ _ hi, read_memcpy.trans hsource⟩
    · exact absurd (hc.1 j _ hji hj) (by simp [Stage.occupies])
  · intro j c' packet' hj
    rcases thread_of_set hj with ⟨-, he⟩ | ⟨-, hj⟩
    · cases he
    · exact h.encrypted j c' packet' hj
  · exact h.oneEncrypted.set hi (by simp [Stage.usesEncryptData])
  · exact h.transmitted
  · exact h.supplied
  · intro j u x hj hx
    rcases thread_of_set hj with ⟨-, rfl⟩ | ⟨-, hj⟩
    · exact h.packets i _ x hi hx
    · exact h.packets j u x hj hx

theorem SppSender.Filled.sent (h : s.Filled encrypt) {c : Call} {packet : List UInt8}
    (hi : s.threads[i]? = some (.copied c packet)) : SppSender.Filled encrypt { s with
      inFlight := s.inFlight ++ [⟨s.tx_buf_index, packet.length % 2 ^ 16, packet⟩]
      accepted := s.accepted ++ [(c, packet)]
      threads := s.threads.set i (.returned true) } := by
  obtain ⟨hlen, hread⟩ := h.copied i c packet hi
  have hmod : packet.length % 2 ^ 16 = packet.length := by
    apply Nat.mod_eq_of_lt
    simp only [maxSppPacketSize] at hlen
    omega
  -- the thread leaves the slot, its packet stays
  have hthreads : ({ s with threads := s.threads.set i (.returned true) } : SppSender).Filled encrypt :=
    h.clear hi rfl rfl rfl rfl rfl rfl rfl fun _ _ _ _ _ => rfl
  constructor
  · intro p hp
    rcases List.mem_append.1 hp with hp | hp
    · exact h.inFlight p hp
    · cases List.mem_singleton.1 hp
      exact ⟨hlen, hmod, by rw [hmod]; exact hread⟩
  · exact hthreads.copied
  · exact hthreads.encrypted
  · exact hthreads.oneEncrypted
  · simp only [List.map_append, List.map_cons, List.map_nil]
    rw [← List.append_assoc, h.transmitted]
  · intro x hx
    rcases List.mem_append.1 hx with hx | hx
    · exact h.supplied x hx
    · cases List.mem_singleton.1 hx
      exact h.packets i _ _ hi rfl
  · exact hthreads.packets

theorem SppSender.Filled.step {e : Event} (hsl : s.Slots) (h : s.Filled encrypt) (hc : s.Serial e)
    (hs : s.step encrypt e = some s') : s'.Filled encrypt := by
  cases e with
  | call i c =>
    obtain ⟨hi, -, rfl⟩ := step_call hs
    exact h.clear hi rfl rfl rfl rfl rfl rfl rfl fun _ _ _ _ _ => rfl
  | pack i => exact h.pack hc hs
  | copy i => exact h.copy hsl hc hs
  | send i =>
    obtain ⟨c, packet, hi, rfl | rfl⟩ := step_send hs
    · exact h.sent hi
    · exact h.clear hi rfl rfl rfl rfl rfl rfl rfl fun _ _ _ _ _ => rfl
  | finish i =>
    rcases step_finish hs with ⟨hi, rfl⟩ | ⟨hi, rfl⟩
    · refine h.clear hi rfl rfl rfl rfl rfl rfl rfl fun j c packet hj hji => ?_
      exact absurd (hsl.one i j _ _ hi hj rfl rfl).symm hji
    · exact h.clear hi rfl rfl rfl rfl rfl rfl rfl fun _ _ _ _ _ => rfl
  | txDone =>
    obtain ⟨p, rest, hp, rfl⟩ := step_txDone hs
    have hall := h.inFlight
    have htr := h.transmitted
    rw [hp] at hall htr
    refine ⟨fun q hq => hall q (List.mem_cons_of_mem _ hq), h.copied, h.encrypted, h.oneEncrypted, ?_, h.supplied,
      h.packets⟩
    simp only [(hall p List.mem_cons_self).2.2, List.append_assoc, List.singleton_append]
    exact htr
  | sppConnected b | totaConnected b | streamStart m =>
    obtain rfl := Option.some.inj hs
    exact ⟨h.inFlight, h.copied, h.encrypted, h.oneEncrypted, h.transmitted, h.supplied, h.packets⟩

/-! ## Every run -/

/-- What the transport reads is what the callers supplied. -/
structure SppSender.Faithful (encrypt : List UInt8 → List UInt8) (s : SppSender) : Prop where
  /-- The bytes that went out, and those that the slots in flight hold, are the
  packets of the calls that succeed, in order. -/
  transmitted : s.transmitted ++ s.inFlight.map (fun p => read s.spp_tx_buffer (slotAt p.slot) p.len) =
    s.accepted.map Prod.snd
  /-- These packets are what the calls supply. -/
  supplied : ∀ x ∈ s.accepted, x.1.Supplies encrypt x.2
  /-- No step writes to a slot whose packet is in flight. -/
  frozen : ∀ e s', s.Serial e → s.step encrypt e = some s' → ∀ p ∈ s.inFlight, ∀ a,
    InRange (slotAt p.slot) maxSppPacketSize a → s'.spp_tx_buffer a = s.spp_tx_buffer a

/-- The senders' packets go out as supplied in every run in which the steps on
the slots do not mix. -/
theorem faithful_run {evs : List Event} (h : Run (SppSender.step encrypt) (fun e s => s.Serial e) SppSender.init s evs) :
    s.Faithful encrypt := by
  have hinv : s.Slots ∧ s.Filled encrypt := by
    refine h.inv (fun s => s.Slots ∧ s.Filled encrypt) ?_ ?_
    · rintro s ⟨hsem, hindex, hidle, hin, htr, hacc⟩
      have hthread : ∀ (i : Nat) t, s.threads[i]? = some t → t = .idle :=
        fun i t ht => hidle t (List.mem_of_getElem? ht)
      have hunique : ∀ p : Stage → Bool, p .idle = false → Unique p s.threads := by
        intro p hp i j t u hi _ ht _
        rw [hthread i t hi, hp] at ht
        cases ht
      have hheld : s.threads.countP Stage.holds = 0 := by
        rw [List.countP_eq_zero]
        intro t ht
        rw [hidle t ht]
        decide
      constructor
      · refine ⟨?_, ?_, ?_, ?_, ?_, ?_, hunique _ rfl⟩
        · rw [hsem, hin, hheld, List.length_nil]
        · rw [hindex]
          decide
        · intro _
          rw [hindex, hacc, List.length_nil]
        · intro i hi
          cases hthread i _ hi
        · simp [hin]
        · rw [htr, hin, hacc]
          rfl
      · refine ⟨?_, ?_, ?_, hunique _ rfl, ?_, ?_, ?_⟩
        · simp [hin]
        · intro i c packet hi
          cases hthread i _ hi
        · intro i c packet hi
          cases hthread i _ hi
        · rw [htr, hin, hacc]
          rfl
        · simp [hacc]
        · intro i t x hi hx
          rw [hthread i t hi] at hx
          cases hx
    · rintro e s s' ⟨hsl, hf⟩ hc hs
      exact ⟨hsl.step hc hs, hf.step hsl hc hs⟩
  obtain ⟨hsl, hf⟩ := hinv
  refine ⟨?_, hf.supplied, fun e s' hc hs p hp a ha => hsl.frozen hc hs hp ha⟩
  rw [← hf.transmitted]
  congr 1
  apply List.map_congr_left
  intro p hp
  exact (hf.inFlight p hp).2.2

instance (s : SppSender) (i : Nat) (p : Stage → Bool) : Decidable (s.Alone i p) :=
  decidable_of_iff (∀ j < s.threads.length, j ≠ i → (s.threads[j]?.map p).getD false = false) <| by
    constructor
    · intro h j t hj ht
      have := h j (List.getElem?_eq_some_iff.1 ht).1 hj
      rwa [ht, Option.map_some, Option.getD_some] at this
    · intro h j hlt hj
      rw [List.getElem?_eq_getElem hlt, Option.map_some, Option.getD_some]
      exact h j _ hj (List.getElem?_eq_getElem hlt)

instance (e : Event) (s : SppSender) : Decidable (s.Serial e) :=
  match e with
  | .pack i =>
    match hi : s.threads[i]? with
    | some (.waited c) =>
      decidable_of_iff (c.encrypts s.isTotaConnected → s.Alone i Stage.usesEncryptData) (by simp [SppSender.Serial, hi])
    | none | some .idle | some (.packed ..) | some (.copied ..) | some (.returned _) =>
      .isTrue fun c hc => by simp [hi] at hc
  | .copy i =>
    match hi : s.threads[i]? with
    | some (.packed c encrypted packet) =>
      decidable_of_iff (s.Alone i Stage.occupies ∧ packet.length ≤ maxSppPacketSize) (by simp [SppSender.Serial, hi])
    | none | some .idle | some (.waited _) | some (.copied ..) | some (.returned _) =>
      decidable_of_iff (s.Alone i Stage.occupies) (by simp [SppSender.Serial, hi])
  | .call .. | .send _ | .finish _ | .txDone | .sppConnected _ | .totaConnected _ | .streamStart _ => .isTrue trivial

/-- Two threads, with the link up. -/
def twoSenders : SppSender := ⟨5, 0, fun _ => 0, fun _ => 0, true, false, 0, [.idle, .idle], [], [], []⟩

theorem init_twoSenders : twoSenders.init := ⟨rfl, rfl, by decide, rfl, rfl, rfl⟩

theorem faithful_run_example : ∃ s : SppSender, s.Faithful id ∧ s.transmitted = [[1, 2, 3]] ∧
    s.accepted.map Prod.snd = [[1, 2, 3], [0xFE, 0xFF, 7]] := by
  obtain ⟨s, hrun, hgood⟩ := exists_run_of_check (SppSender.step id) (fun e s => s.Serial e) SppSender.init
    (some twoSenders) [.call 0 (.data [1, 2, 3]), .streamStart 1, .call 1 (.stream [7]), .pack 1, .pack 0, .copy 0,
      .send 0, .finish 0, .copy 1, .txDone, .send 1, .finish 1]
    (fun s => s.transmitted == [[1, 2, 3]] && s.accepted.map Prod.snd == [[1, 2, 3], [0xFE, 0xFF, 7]])
    (fun s hs => Option.some.inj hs ▸ init_twoSenders) (by decide +kernel)
  simp only [Bool.and_eq_true, beq_iff_eq] at hgood
  exact ⟨s, faithful_run hrun, hgood⟩

/-- Two threads that copy one after the other use the same slot. -/
theorem slot_overwritten : ¬ ∀ (encrypt : List UInt8 → List UInt8) (s : SppSender) (evs : List Event),
    Run (SppSender.step encrypt) (fun _ _ => True) SppSender.init s evs → s.Faithful encrypt := by
  intro hclaim
  obtain ⟨s, hrun, hgood⟩ := exists_run_of_check (SppSender.step id) (fun _ _ => True) SppSender.init
    (some twoSenders) [.call 0 (.data [1]), .call 1 (.data [2]), .pack 0, .pack 1, .copy 0, .copy 1, .send 0]
    (fun s => s.transmitted ++ s.inFlight.map (fun p => read s.spp_tx_buffer (slotAt p.slot) p.len) == [[2]] &&
      s.accepted.map Prod.snd == [[1]])
    (fun s hs => Option.some.inj hs ▸ init_twoSenders) (by decide +kernel)
  simp only [Bool.and_eq_true, beq_iff_eq] at hgood
  have htr := (hclaim id s _ hrun).transmitted
  rw [hgood.1, hgood.2] at htr
  exact absurd htr (by decide)

end Tota.Spp
