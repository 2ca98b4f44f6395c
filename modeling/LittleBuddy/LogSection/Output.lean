import LittleBuddy.LogSection.Flush
/-!
# Output to the buffers

An output that leaves a buffer that is not full only adds bytes to the log.
-/
open Cursor

namespace LogDump

/-- The bytes that are missing in the buffer that is being written, or in the next one. -/
def room (s : Log) : Nat :=
  if (s.data_buffer_list s.w_seqnum).state = .writting then sectorSize - (s.data_buffer_list s.w_seqnum).offset
  else payloadLen

/-- The number of buffers that an output of `len` bytes fills. -/
def buffersFilled (s : Log) (len : Nat) : Nat := if len < room s then 0 else 1 + (len - room s) / payloadLen

variable {count : Nat} {earlier written full_payloads : List (List UInt8)} {part_payload : Option (List UInt8)} {S : Sys}

/-! ## Turns of the loop -/

/-- A turn of the loop begins: there is a buffer that is being written. -/
theorem Open.begin (h : Open count earlier S written full_payloads part_payload) :
    Open count earlier { S with log := beginBuffer S.log } written full_payloads (some (part_payload.getD [])) := by
  cases part_payload with
  | some p =>
    have hbuffer := h.buffers.w_buffer.1 _ rfl
    have hoffset : ¬ (S.log.data_buffer_list S.log.w_seqnum).offset = 0 := by
      rw [hbuffer, DataBuffer.offset, List.length_append, length_header]
      simp
    have hstate : ¬ ((S.log.data_buffer_list S.log.w_seqnum).state = .free ∨
        (S.log.data_buffer_list S.log.w_seqnum).state = .written) := by
      rw [hbuffer]
      simp
    have hsame : beginBuffer S.log = S.log := by
      rw [beginBuffer, if_neg hstate, if_neg hoffset, Function.update_eq_self]
    rw [hsame]
    exact h
  | none =>
    have hstate := h.buffers.w_buffer.2 rfl
    have hbegin : beginBuffer S.log = { S.log with
        data_buffer_list := Function.update S.log.data_buffer_list S.log.w_seqnum
          ⟨.writting, header S.log.cur_dump_seqnum S.log.is_bootup⟩
        cur_dump_seqnum := S.log.cur_dump_seqnum + 1
        is_bootup := false } := by
      have hfresh : (S.log.data_buffer_list S.log.w_seqnum).state = .free ∨
          (S.log.data_buffer_list S.log.w_seqnum).state = .written := .inl hstate
      rw [beginBuffer, if_pos hfresh]
      exact if_pos rfl
    have hbuffers := h.buffers.write (header S.log.cur_dump_seqnum S.log.is_bootup)
      (S.log.cur_dump_seqnum + 1) false
    rw [hbegin]
    refine { h with logged := ?_, part_len := ?_, buffers := ?_, seqnum := ?_, bootup := ?_, area := { h.area with } }
    · simpa using h.logged
    · rintro p ⟨⟩
      decide
    · have hheader : header (UInt32.ofNat (earlier.length + (written ++ full_payloads).length))
          (written ++ full_payloads).isEmpty ++ [] = header S.log.cur_dump_seqnum S.log.is_bootup := by
        rw [h.seqnum, h.bootup, Option.toList_none, List.append_nil, List.append_nil]
      rw [Option.getD_none, Option.map_some, hheader]
      exact hbuffers
    · dsimp only
      rw [h.seqnum]
      apply UInt32.toNat_inj.1
      simp [Nat.add_assoc]
    · simp

theorem isEmpty_append {α : Type} (l l' : List α) : (l ++ l').isEmpty = (l.isEmpty && l'.isEmpty) := by
  cases l <;> rfl

/-- The bytes of a turn that do not fill the buffer. -/
theorem Open.put {p : List UInt8} (h : Open count earlier S written full_payloads (some p)) (bytes : List UInt8)
    (hlen : p.length + bytes.length < payloadLen) :
    Open count earlier ⟨putBytes S.log bytes, S.logged ++ bytes⟩ written full_payloads (some (p ++ bytes)) := by
  have hbuffer := h.buffers.w_buffer.1 _ rfl
  have hsize : headerLen + payloadLen = sectorSize := rfl
  generalize hheader : header (UInt32.ofNat (earlier.length + (written ++ full_payloads).length))
    (written ++ full_payloads).isEmpty = head at hbuffer
  have hhead : head.length = headerLen := by rw [← hheader, length_header]
  have hput : putBytes S.log bytes = { S.log with
      data_buffer_list := Function.update S.log.data_buffer_list S.log.w_seqnum ⟨.writting, head ++ p ++ bytes⟩ } := by
    rw [putBytes, hbuffer]
    dsimp only
    rw [if_neg]
    rw [List.length_append, List.length_append, hhead]
    omega
  have hbuffers := h.buffers.write (head ++ p ++ bytes) S.log.cur_dump_seqnum S.log.is_bootup
  rw [hput]
  refine { h with logged := ?_, part_len := ?_, buffers := ?_, seqnum := ?_, bootup := ?_, area := { h.area with } }
  · simp [← h.logged]
  · rintro q ⟨⟩
    rwa [List.length_append]
  · rw [Option.map_some, hheader, ← List.append_assoc]
    exact hbuffers
  · simpa using h.seqnum
  · simpa [isEmpty_append] using h.bootup

/-- The bytes that fill the buffer, which is not the last one. -/
theorem Open.fill {p : List UInt8} (h : Open count earlier S written full_payloads (some p)) (bytes : List UInt8)
    (hlen : p.length + bytes.length = payloadLen) (hroom : full_payloads.length + 1 < sectorBufferCount) :
    ∃ log, (putBytes S.log bytes).w_seqnum = S.log.w_seqnum ∧
      ((putBytes S.log bytes).data_buffer_list S.log.w_seqnum).offset = sectorSize ∧
      nextBuffer (putBytes S.log bytes) = some log ∧
      Open count earlier ⟨log, S.logged ++ bytes⟩ written (full_payloads ++ [p ++ bytes]) none := by
  have hbuffer := h.buffers.w_buffer.1 _ rfl
  have hsize : headerLen + payloadLen = sectorSize := rfl
  generalize hheader : header (UInt32.ofNat (earlier.length + (written ++ full_payloads).length))
    (written ++ full_payloads).isEmpty = head at hbuffer
  have hhead : head.length = headerLen := by rw [← hheader, length_header]
  have hfull : (head ++ p ++ bytes).length = sectorSize := by
    rw [List.length_append, List.length_append, hhead]
    omega
  have hput : putBytes S.log bytes = { S.log with
      data_buffer_list := Function.update S.log.data_buffer_list S.log.w_seqnum ⟨.written, head ++ p ++ bytes⟩ } := by
    rw [putBytes, hbuffer]
    dsimp only
    rw [if_pos hfull]
  obtain ⟨log, hnext, rfl, hbuffers⟩ := h.buffers.fill hfull (by rwa [length_sectors])
  rw [hput]
  refine ⟨_, rfl, ?_, hnext, ?_⟩
  · dsimp only
    rw [Function.update_self, DataBuffer.offset, hfull]
  · refine { h with
      logged := ?_, full_len := ?_, part_len := ?_, buffers := ?_, seqnum := ?_, bootup := ?_, area := { h.area with } }
    · simp [← h.logged]
    · intro q hq
      rw [← List.append_assoc] at hq
      rcases List.mem_append.1 hq with hq | hq
      · exact h.full_len q hq
      · rw [List.mem_singleton.1 hq, List.length_append, hlen]
    · rintro q ⟨⟩
    · have hlast : sectors (earlier.length + written.length + full_payloads.length)
          (written.isEmpty && full_payloads.isEmpty) [p ++ bytes] = [head ++ p ++ bytes] := by
        rw [← hheader, isEmpty_append, List.length_append, ← Nat.add_assoc, List.append_assoc]
        rfl
      rw [sectors_append, hlast]
      exact hbuffers
    · simpa using h.seqnum
    · simpa [isEmpty_append] using h.bootup

/-- The bytes missing in the buffer, and the buffers that `len` bytes fill. -/
def missing (part_payload : Option (List UInt8)) : Nat := payloadLen - (part_payload.getD []).length

theorem Open.room_eq (h : Open count earlier S written full_payloads part_payload) : room S.log = missing part_payload := by
  unfold room missing
  cases part_payload with
  | some p =>
    have hbuffer := h.buffers.w_buffer.1 _ rfl
    rw [hbuffer, if_pos rfl, DataBuffer.offset, List.length_append, length_header, Nat.sub_add_eq]
    rfl
  | none =>
    rw [h.buffers.w_buffer.2 rfl, if_neg (by decide)]
    rfl

theorem payloadLen_eq : payloadLen = 4080 := rfl

/-- What an output fills does not depend on how its bytes are cut at the borders of the buffers. -/
theorem filled_step {r len : Nat} (h : r ≤ len) :
    1 + (len - r) / payloadLen = 1 + (if len - r < payloadLen then 0 else 1 + (len - r - payloadLen) / payloadLen) := by
  rw [payloadLen_eq]
  split_ifs <;> omega

theorem lt_of_filled {r len k : Nat} (h : k + (if len < r then 0 else 1 + (len - r) / payloadLen) < sectorBufferCount) :
    len < r + 3 * payloadLen := by
  have hcount : sectorBufferCount = 4 := rfl
  rw [payloadLen_eq] at h ⊢
  split_ifs at h <;> omega

/-- The loop of the output handler ends, and has put all bytes into buffers. -/
theorem Open.outputLoop (h : Open count earlier S written full_payloads part_payload) {fuel : Nat} {buf : List UInt8}
    (hfuel : buf.length < fuel)
    (hroom : full_payloads.length + (if buf.length < missing part_payload then 0
      else 1 + (buf.length - missing part_payload) / payloadLen) < sectorBufferCount) :
    ∃ log, outputLoop fuel buf S.log = some log ∧ Inv count earlier ⟨log, S.logged ++ buf⟩ := by
  induction fuel generalizing S full_payloads part_payload buf with
  | zero => omega
  | succ fuel ih =>
    have hbegin := h.begin
    generalize hp : part_payload.getD [] = p at hbegin
    have hpart := hbegin.part_len p rfl
    have hsize := payloadLen_eq
    have hsector := sectorSize_eq
    have hoffset : ((beginBuffer S.log).data_buffer_list (beginBuffer S.log).w_seqnum).offset = headerLen + p.length := by
      rw [hbegin.buffers.w_buffer.1 _ rfl, DataBuffer.offset, List.length_append, length_header]
    have hmissing : missing part_payload = payloadLen - p.length := by rw [missing, hp]
    rw [hmissing] at hroom
    have hword : (headerLen + p.length + buf.length) % UInt32.size = headerLen + p.length + buf.length := by
      have hlt := lt_of_filled hroom
      have h32 : UInt32.size = 4294967296 := rfl
      have hhead : headerLen = 16 := rfl
      apply Nat.mod_eq_of_lt
      omega
    rw [LogDump.outputLoop, hoffset, hword]
    by_cases hshort : buf.length < payloadLen - p.length
    · -- the last turn: all bytes fit, and the buffer does not get full
      have hput := hbegin.put buf (by omega)
      have hput_offset : ¬ ((putBytes (beginBuffer S.log) buf).data_buffer_list
          (putBytes (beginBuffer S.log) buf).w_seqnum).offset = sectorSize := by
        rw [hput.buffers.w_buffer.1 _ rfl, DataBuffer.offset, List.length_append, length_header, List.length_append]
        simp only [headerLen]
        omega
      have hlen : ¬ headerLen + p.length + buf.length > sectorSize := by
        simp only [headerLen]
        omega
      rw [if_neg hlen, List.take_length, List.drop_length, if_neg hput_offset]
      exact ⟨_, rfl, .inl ⟨_, _, _, hput⟩⟩
    · have hwrite : (if headerLen + p.length + buf.length > sectorSize then sectorSize - (headerLen + p.length)
          else buf.length) = payloadLen - p.length := by
        simp only [headerLen]
        split_ifs <;> omega
      rw [hwrite]
      have htake : (buf.take (payloadLen - p.length)).length = payloadLen - p.length :=
        List.length_take_of_le (Nat.not_lt.1 hshort)
      rw [if_neg hshort, filled_step (Nat.not_lt.1 hshort), ← Nat.add_assoc] at hroom
      obtain ⟨log, hw, hfull, hnext, hopen⟩ := hbegin.fill (buf.take (payloadLen - p.length))
        (by omega) (lt_of_le_of_lt (Nat.le_add_right ..) hroom)
      rw [hw, if_pos hfull, hnext, Option.bind_some]
      have hsplit : S.logged ++ buf = S.logged ++ buf.take (payloadLen - p.length) ++ buf.drop (payloadLen - p.length) := by
        rw [List.append_assoc, List.take_append_drop]
      rw [hsplit]
      split_ifs with hrest
      · rw [hrest, List.append_nil]
        exact ⟨log, rfl, .inl ⟨_, _, _, hopen⟩⟩
      · have hdrop : (buf.drop (payloadLen - p.length)).length = buf.length - (payloadLen - p.length) := List.length_drop
        refine ih hopen (by omega) ?_
        rw [hdrop, List.length_append, List.length_singleton]
        exact hroom

end LogDump
