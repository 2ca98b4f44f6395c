import LittleBuddy.Lib.HeaderRing
import LittleBuddy.LogSection.CrashDump
import Mathlib.Data.List.Infix
/-!
# Crash dumps over the boots

A crash writes its texts into sectors that are numbered one after the other and
follow each other around the section. The next boot looks for the last of them
at every second sector only, and so a second dump never goes on where the first
one ended.
-/
open Bytes NorMem SectorRing HeaderRing

namespace CrashDump

/-- What is left for the text in a sector. -/
abbrev payloadLen : Nat := sectorSize - headerLen

theorem payloadLen_eq : payloadLen = 4080 := rfl
theorem sectorSize_eq : sectorSize = 4096 := rfl
theorem headerLen_eq : headerLen = 16 := rfl
theorem bufferLen_eq : bufferLen = 8192 := rfl

/-! ## Headers -/

def format : Format where
  headerLen := headerLen
  number := headerSeqnum
  erased := by decide

/-- The `seqnum` of a sector. -/
def numberOf (b : List UInt8) : Nat := ofLe ((b.drop 8).take 4)

@[simp] theorem length_header (seqnum : UInt32) : (header seqnum).length = headerLen := by simp [header]

theorem seqnum_header (seqnum : UInt32) (p : List UInt8) : (((header seqnum ++ p).drop 8).take 4) = leBytes 4 seqnum.toNat := by
  have hsplit : header seqnum ++ p =
      (leBytes 4 crashDumpMagicCode ++ leBytes 4 crashDumpVersion) ++ (leBytes 4 seqnum.toNat ++ ([0, 0, 0, 10] ++ p)) := by
    simp [header]
  rw [hsplit, List.drop_left' (by simp), List.take_left' (by simp)]

theorem numberOf_header (seqnum : UInt32) (p : List UInt8) : numberOf (header seqnum ++ p) = seqnum.toNat := by
  rw [numberOf, seqnum_header, ofLe_leBytes seqnum.toNat_lt]

theorem headerSeqnum_header (seqnum : UInt32) : headerSeqnum (header seqnum) = some seqnum := by
  have hseqnum := seqnum_header seqnum []
  rw [List.append_nil] at hseqnum
  have hmagic : (header seqnum).take 4 = leBytes 4 crashDumpMagicCode := by
    rw [header, List.append_assoc, List.append_assoc, List.take_left' (by simp)]
  have hversion : ((header seqnum).drop 4).take 4 = leBytes 4 crashDumpVersion := by
    rw [header, List.append_assoc, List.append_assoc, List.drop_left' (by simp), List.take_left' (by simp)]
  rw [headerSeqnum, hmagic, hversion, hseqnum, ofLe_leBytes (by decide), ofLe_leBytes (by decide),
    if_pos ⟨rfl, rfl⟩, ofLe_leBytes seqnum.toNat_lt, UInt32.ofNat_toNat]

theorem tagged_header (i : Nat) (p : List UInt8) : Tagged format i (header (UInt32.ofNat i) ++ p) := by
  refine ⟨by simp [format], ?_⟩
  have htake : (header (UInt32.ofNat i) ++ p).take format.headerLen = header (UInt32.ofNat i) :=
    List.take_left' (length_header _)
  rw [htake]
  exact headerSeqnum_header _

/-! ## Writing -/

theorem crashLogAlign_sector (i : Nat) : crashLogAlign (i * sectorSize) sectorSize = i * sectorSize := by
  unfold crashLogAlign
  have : (i * sectorSize + sectorSize - 1) / sectorSize = i := by
    simp only [sectorSize]
    omega
  rw [this]

theorem crashDumpWrite_sector (i : Nat) (bytes : List UInt8) (m : Medium) :
    crashDumpWrite (i * sectorSize) bytes m =
      if bytes.length = 0 then { m with flash := erase m.flash (i * sectorSize) sectorSize }
      else ⟨program (erase m.flash (i * sectorSize) sectorSize) (i * sectorSize) bytes.length (bufferOf bytes),
        m.written ++ [(i * sectorSize, bytes)]⟩ := by
  rw [crashDumpWrite, crashLogAlign_sector, if_neg (not_not.2 rfl)]

/-- The sectors with these texts, from the ring position `o` and the number `n` on. -/
def sectorsFrom (count o : Nat) (n : UInt32) (payloads : List (List UInt8)) : List (Nat × List UInt8) :=
  payloads.mapIdx fun i p => (addr sectorSize count (o + i), header (n + UInt32.ofNat i) ++ p)

def writeAll (ws : List (Nat × List UInt8)) (m : Medium) : Medium := ws.foldl (fun m w => crashDumpWrite w.1 w.2 m) m

theorem writeAll_concat (ws : List (Nat × List UInt8)) (w : Nat × List UInt8) (m : Medium) :
    writeAll (ws ++ [w]) m = crashDumpWrite w.1 w.2 (writeAll ws m) := by
  simp [writeAll]

variable {count o : Nat} {n : UInt32}

theorem sectorsFrom_concat (payloads : List (List UInt8)) (p : List UInt8) :
    sectorsFrom count o n (payloads ++ [p]) = sectorsFrom count o n payloads ++
      [(addr sectorSize count (o + payloads.length), header (n + UInt32.ofNat payloads.length) ++ p)] := by
  simp [sectorsFrom]

theorem written_sectorsFrom (payloads : List (List UInt8)) (m : Medium) :
    (writeAll (sectorsFrom count o n payloads) m).written = m.written ++ sectorsFrom count o n payloads := by
  induction payloads using List.reverseRecOn with
  | nil => simp [sectorsFrom, writeAll]
  | append_singleton payloads p ih =>
    rw [sectorsFrom_concat, writeAll_concat, addr, crashDumpWrite_sector, if_neg (by simp)]
    simp only [ih, List.append_assoc]

/-! ## One crash -/

/-- While texts are put out: `full` are the texts of the sectors that are
written, `part` the text in the buffer. -/
structure Open (count o : Nat) (n : UInt32) (m : Medium) (s : Dump) (full : List (List UInt8))
    (part : Option (List UInt8)) : Prop where
  allocated : s.allocated = true
  init : s.is_init = true
  medium : s.medium = writeAll (sectorsFrom count o n full) m
  offs : s.flash_offs = addr sectorSize count (o + full.length)
  seqnum : s.cur_dump_seqnum = n + UInt32.ofNat (full.length + part.toList.length)
  buffer : s.buffer = part.elim [] (header (n + UInt32.ofNat full.length) ++ ·)
  full_len : ∀ p ∈ full, p.length = payloadLen
  part_len : ∀ p ∈ part, p.length < payloadLen

variable {m : Medium} {s : Dump} {full : List (List UInt8)} {part : Option (List UInt8)}

theorem Open.begin (h : Open count o n m s full part) : Open count o n m (beginBuffer s) full (some (part.getD [])) := by
  cases part with
  | none =>
    have hbuffer := h.buffer
    have hseqnum := h.seqnum
    simp only [Option.elim_none, Option.toList_none, List.length_nil, Nat.add_zero] at hbuffer hseqnum
    rw [beginBuffer, if_pos (by rw [hbuffer]; rfl)]
    refine { h with seqnum := ?_, buffer := ?_, part_len := ?_ }
    · simp [hseqnum, UInt32.add_assoc]
    · simp [hseqnum]
    · rintro p ⟨⟩
      decide
  | some p =>
    rw [beginBuffer, if_neg (by simp [h.buffer])]
    exact h

/-- Bytes that do not fill the buffer. -/
theorem Open.put {p : List UInt8} (h : Open count o n m s full (some p)) (bytes : List UInt8)
    (hlen : p.length + bytes.length < payloadLen) :
    Open count o n m { s with buffer := s.buffer ++ bytes } full (some (p ++ bytes)) := by
  refine { h with seqnum := ?_, buffer := ?_, part_len := ?_ }
  · simpa using h.seqnum
  · simp [h.buffer]
  · rintro q ⟨⟩
    rwa [List.length_append]

/-- Bytes that fill the buffer: it is written, and the next one is empty. -/
theorem Open.fill {p : List UInt8} (h : Open count o n m s full (some p)) (hcount : 0 < count) (bytes : List UInt8)
    (hlen : p.length + bytes.length = payloadLen) :
    Open count o n m (writeBuffer (count * sectorSize) { s with buffer := s.buffer ++ bytes }) (full ++ [p ++ bytes]) none := by
  have hbuffer : s.buffer ++ bytes = header (n + UInt32.ofNat full.length) ++ (p ++ bytes) := by
    rw [h.buffer, Option.elim_some, List.append_assoc]
  have hsize : (s.buffer ++ bytes).length = sectorSize := by
    rw [hbuffer, List.length_append, length_header, List.length_append, hlen]
    rfl
  refine { h with medium := ?_, offs := ?_, seqnum := ?_, buffer := rfl, full_len := ?_, part_len := by simp }
  · rw [sectorsFrom_concat, writeAll_concat, ← h.medium, ← hbuffer, ← h.offs]
    rfl
  · simp only [writeBuffer, hsize, h.offs]
    rw [addr_succ hcount (by decide), List.length_append, List.length_singleton, Nat.add_assoc]
  · simpa [writeBuffer] using h.seqnum
  · intro q hq
    rcases List.mem_append.1 hq with hq | hq
    · exact h.full_len q hq
    · rw [List.mem_singleton.1 hq, List.length_append, hlen]

/-- The text of all sectors and of the buffer. -/
def textOf (full : List (List UInt8)) (part : Option (List UInt8)) : List UInt8 := (full ++ part.toList).flatten

/-- The loop ends, and has put all bytes out. There is nothing in the buffer
only when the last byte has filled it. -/
theorem Open.outputLoop (h : Open count o n m s full part) (hcount : 0 < count) {fuel : Nat} {buf : List UInt8}
    (hfuel : buf.length < fuel) (hbuf : buf.length + bufferLen ≤ UInt32.size) :
    ∃ s' full' part', outputLoop (count * sectorSize) fuel buf s = some s' ∧ Open count o n m s' full' part' ∧
      textOf full' part' = textOf full part ++ buf ∧ (buf = [] → part' ≠ none) ∧ (part' = some [] → buf = []) := by
  induction fuel generalizing s full part buf with
  | zero => omega
  | succ fuel ih =>
    have hbegin := h.begin
    have htext : textOf full part = full.flatten ++ part.getD [] := by
      cases part <;> simp [textOf]
    generalize part.getD [] = p at hbegin htext
    have hpart := hbegin.part_len p rfl
    have hlen : (beginBuffer s).buffer.length = headerLen + p.length := by
      rw [hbegin.buffer, Option.elim_some, List.length_append, length_header]
    have hsize := payloadLen_eq
    have hsector := sectorSize_eq
    have hhead := headerLen_eq
    have hbuffer := bufferLen_eq
    have hword : (headerLen + p.length + buf.length) % UInt32.size = headerLen + p.length + buf.length := by
      apply Nat.mod_eq_of_lt
      omega
    rw [CrashDump.outputLoop]
    simp only [hlen, hword]
    by_cases hshort : buf.length < payloadLen - p.length
    · -- the last turn: all bytes fit, and the buffer does not get full
      have hput := hbegin.put buf (by omega)
      have huint : ¬ headerLen + p.length + buf.length > sectorSize := by
        omega
      have hroom : ¬ ((beginBuffer s).allocated = false ∨ headerLen + p.length + buf.length > bufferLen) := by
        simp only [hbegin.allocated, Bool.true_eq_false, false_or]
        omega
      have hfull : ¬ ((beginBuffer s).buffer ++ buf).length = sectorSize := by
        rw [List.length_append, hlen]
        omega
      rw [if_neg huint, if_neg hroom, List.take_length, List.drop_length, if_neg hfull, if_pos rfl]
      refine ⟨_, full, some (p ++ buf), rfl, hput, ?_, by simp, ?_⟩
      · rw [htext]
        simp [textOf]
      · intro hnil
        exact (List.append_eq_nil_iff.1 (Option.some.inj hnil)).2
    · have huint : (if headerLen + p.length + buf.length > sectorSize then sectorSize - (headerLen + p.length)
          else buf.length) = payloadLen - p.length := by
        split_ifs <;> omega
      have hroom : ¬ ((beginBuffer s).allocated = false ∨ headerLen + p.length + (payloadLen - p.length) > bufferLen) := by
        simp only [hbegin.allocated, Bool.true_eq_false, false_or]
        omega
      have htake : (buf.take (payloadLen - p.length)).length = payloadLen - p.length :=
        List.length_take_of_le (Nat.not_lt.1 hshort)
      have hfull : ((beginBuffer s).buffer ++ buf.take (payloadLen - p.length)).length = sectorSize := by
        rw [List.length_append, hlen, htake]
        omega
      have hfill := hbegin.fill hcount (buf.take (payloadLen - p.length)) (by omega)
      have hwritten : textOf (full ++ [p ++ buf.take (payloadLen - p.length)]) none =
          textOf full part ++ buf.take (payloadLen - p.length) := by
        rw [htext]
        simp [textOf]
      rw [huint, if_neg hroom, if_pos hfull]
      split_ifs with hrest
      · have hall : buf.take (payloadLen - p.length) = buf := by
          have hsplit := List.take_append_drop (payloadLen - p.length) buf
          rwa [hrest, List.append_nil] at hsplit
        rw [hall] at hfill hwritten ⊢
        refine ⟨_, _, none, rfl, hfill, hwritten, ?_, by simp⟩
        rintro rfl
        rw [List.take_nil, List.length_nil] at htake
        omega
      · have hdrop : (buf.drop (payloadLen - p.length)).length = buf.length - (payloadLen - p.length) := List.length_drop
        obtain ⟨s', full', part', hrun, hopen, htext', -, hlast⟩ :=
          ih hfill (by rw [hdrop]; omega) (by rw [hdrop]; omega)
        refine ⟨s', full', part', hrun, hopen, ?_, ?_, ?_⟩
        · rw [htext', hwritten, List.append_assoc, List.take_append_drop]
        · rintro rfl
          exact absurd List.drop_nil hrest
        · intro hnil
          exact absurd (hlast hnil) hrest

/-- `strstr` does not find the prefix of the own traces, and beside the text there
is room in the address space for the buffer. -/
structure Output.Plain (o : Output) : Prop where
  foreign : ¬ o.own
  small : o.buf.length + bufferLen ≤ UInt32.size

theorem Open.outputs (h : Open count o n m s [] none) (hcount : 0 < count) {outputs : List Output}
    (hplain : ∀ x ∈ outputs, x.Plain) :
    ∃ s' full part, outputs.foldlM (fun s o => crashDumpOutput (count * sectorSize) o s) s = some s' ∧
      Open count o n m s' full part ∧ textOf full part = outputs.flatMap (·.buf) ∧
      (outputs = [] → full = [] ∧ part = none) ∧
      ∀ x, outputs.getLast? = some x → (x.buf = [] → part ≠ none) ∧ (part = some [] → x.buf = []) := by
  induction outputs using List.reverseRecOn with
  | nil => exact ⟨s, [], none, rfl, h, rfl, fun _ => ⟨rfl, rfl⟩, by simp⟩
  | append_singleton outputs x ih =>
    obtain ⟨s₁, full₁, part₁, hrun₁, hopen₁, htext₁, -, -⟩ := ih fun y hy => hplain y (by simp [hy])
    obtain ⟨hforeign, hsmall⟩ := hplain x (by simp)
    obtain ⟨s', full, part, hrun, hopen, htext, hlast⟩ := hopen₁.outputLoop hcount (Nat.lt_succ_self _) hsmall
    have hcall : crashDumpOutput (count * sectorSize) x s₁ = some s' := by
      rw [crashDumpOutput, hopen₁.init, if_neg (by decide), if_neg hforeign]
      exact hrun
    refine ⟨s', full, part, ?_, hopen, ?_, by simp, ?_⟩
    · rw [List.foldlM_append, hrun₁]
      simp [hcall]
    · rw [htext, htext₁]
      simp
    · intro y hy
      obtain rfl : x = y := by simpa using hy
      exact hlast

/-! ## One boot -/

namespace Crash

/-- The bytes put out. -/
def text (c : Crash) : List UInt8 := c.outputs.flatMap (·.buf)

/-- The number of sectors that the texts fill or begin: an empty text behind a
full sector begins one, too. -/
def sectors (c : Crash) : Nat :=
  c.text.length / payloadLen +
    if c.text.length % payloadLen ≠ 0 ∨ c.outputs.getLast?.any (·.buf.isEmpty) = true then 1 else 0

def Plain (c : Crash) : Prop := ∀ x ∈ c.outputs, x.Plain

end Crash

theorem Open.text_length (h : Open count o n m s full part) :
    (textOf full part).length = full.length * payloadLen + (part.getD []).length := by
  have hfull : (full.map List.length).sum = full.length * payloadLen := by
    have hmap : full.map List.length = List.replicate full.length payloadLen :=
      List.eq_replicate_iff.2 ⟨List.length_map _, by simpa using h.full_len⟩
    rw [hmap, List.sum_replicate_nat]
  cases part <;> simp [textOf, List.length_flatten, hfull]

/-- How many sectors a crash fills or begins. -/
theorem Open.sectors_eq (h : Open count o n m s full part) {c : Crash} (htext : textOf full part = c.text)
    (hnil : c.outputs = [] → full = [] ∧ part = none)
    (hlast : ∀ x, c.outputs.getLast? = some x → (x.buf = [] → part ≠ none) ∧ (part = some [] → x.buf = [])) :
    (full ++ part.toList).length = c.sectors := by
  have hlen := h.text_length
  rw [htext] at hlen
  unfold Crash.sectors
  rw [hlen]
  cases part with
  | none =>
    have hcond : ¬ ((full.length * payloadLen + ([] : List UInt8).length) % payloadLen ≠ 0 ∨
        c.outputs.getLast?.any (·.buf.isEmpty) = true) := by
      simp only [List.length_nil, Nat.add_zero, Nat.mul_mod_left, ne_eq, not_true_eq_false, false_or]
      intro hany
      obtain ⟨x, hx, hempty⟩ := (Option.any_eq_true _ _).1 hany
      exact (hlast x hx).1 (List.isEmpty_iff.1 hempty) rfl
    rw [Option.getD_none, if_neg hcond]
    simp [payloadLen_eq]
  | some p =>
    have hpart := h.part_len p rfl
    have hcond : (full.length * payloadLen + p.length) % payloadLen ≠ 0 ∨
        c.outputs.getLast?.any (·.buf.isEmpty) = true := by
      cases p with
      | cons b p =>
        left
        rw [Nat.mul_add_mod_self_right, Nat.mod_eq_of_lt hpart]
        exact Nat.succ_ne_zero _
      | nil =>
        right
        cases hx : c.outputs.getLast? with
        | none => cases (hnil (List.getLast?_eq_none_iff.1 hx)).2
        | some x => simp [(hlast x hx).2 rfl]
    rw [Option.getD_some, if_pos hcond, Nat.mul_comm, Nat.mul_add_div (by decide), Nat.div_eq_of_lt hpart]
    simp

/-- The sector at which a boot goes on. -/
def startSector (count : Nat) (m : Medium) : Nat := (crashDumpGetSeqnum (count * sectorSize) m.flash).2 * 2

def startSeqnum (count : Nat) (m : Medium) : UInt32 := (crashDumpGetSeqnum (count * sectorSize) m.flash).1

theorem half_count : count * sectorSize / bufferLen = count / 2 := by
  rw [Nat.mul_comm count, Nat.mul_div_mul_left _ _ (by decide)]

theorem startSector_lt (hcount : 0 < count) (m : Medium) : startSector count m < count := by
  rw [startSector, crashDumpGetSeqnum, half_count]
  split_ifs <;> simp only <;> omega

/-- What a boot and its crash do to the section: the texts are written, and the
end of the crash erases the next sector when the buffer is empty. -/
theorem boot_spec (hcount : 0 < count) {c : Crash} (hc : c.Plain) (m : Medium) :
    ∃ m' payloads, boot (count * sectorSize) c m = some m' ∧ payloads.flatten = c.text ∧ payloads.length = c.sectors ∧
      (∀ p ∈ payloads, p.length ≤ payloadLen) ∧ (c.outputs = [] → payloads = []) ∧
      m'.written = m.written ++ sectorsFrom count (startSector count m) (startSeqnum count m) payloads ∧
      let m₁ := writeAll (sectorsFrom count (startSector count m) (startSeqnum count m) payloads) m
      (m' = m₁ ∧ ∃ p, payloads.getLast? = some p ∧ p.length < payloadLen) ∨
      (m' = { m₁ with flash := erase m₁.flash (addr sectorSize count (startSector count m + payloads.length)) sectorSize } ∧
        ∀ p ∈ payloads, p.length = payloadLen) := by
  have hstart : Open count (startSector count m) (startSeqnum count m) m
      (crashDumpNotifyHandler (if c.is_fault then .crashFaultStart else .crashAssertStart)
        (crashDumpInit (count * sectorSize) m)) [] none := by
    have hnotify : crashDumpNotifyHandler (if c.is_fault then .crashFaultStart else .crashAssertStart)
        (crashDumpInit (count * sectorSize) m) = crashDumpInitBuffer (crashDumpInit (count * sectorSize) m) := by
      cases c.is_fault <;> rfl
    rw [hnotify]
    refine ⟨rfl, rfl, rfl, ?_, ?_, rfl, by simp, by simp⟩
    · rw [List.length_nil, Nat.add_zero, addr, Nat.mod_eq_of_lt (startSector_lt hcount m), startSector, Nat.mul_assoc,
        Nat.mul_comm 2]
      rfl
    · simp [crashDumpInitBuffer, crashDumpInit, startSeqnum]
  obtain ⟨s', full, part, hrun, hopen, htext, hnil, hlast⟩ := hstart.outputs hcount hc
  have hboot : boot (count * sectorSize) c m = some (crashDumpNotifyHandler .crashEnd s').medium := by
    simp [boot, crash, hrun]
  have hend : (crashDumpNotifyHandler .crashEnd s').medium =
      crashDumpWrite (addr sectorSize count (startSector count m + full.length)) s'.buffer s'.medium := by
    simp [crashDumpNotifyHandler, crashDumpNotify, hopen.init, hopen.offs]
  have hmedium : let m₁ := writeAll (sectorsFrom count (startSector count m) (startSeqnum count m) (full ++ part.toList)) m
      ((crashDumpNotifyHandler .crashEnd s').medium = m₁ ∧ ∃ p, (full ++ part.toList).getLast? = some p ∧ p.length < payloadLen) ∨
      ((crashDumpNotifyHandler .crashEnd s').medium =
          { m₁ with flash := erase m₁.flash (addr sectorSize count (startSector count m + (full ++ part.toList).length)) sectorSize } ∧
        ∀ p ∈ full ++ part.toList, p.length = payloadLen) := by
    rw [hend, hopen.medium, hopen.buffer]
    cases part with
    | none =>
      right
      simp only [Option.toList_none, List.append_nil, Option.elim_none]
      refine ⟨?_, hopen.full_len⟩
      rw [addr, crashDumpWrite_sector, List.length_nil, if_pos rfl]
    | some p =>
      left
      refine ⟨?_, p, by simp, hopen.part_len p rfl⟩
      rw [Option.toList_some, sectorsFrom_concat, writeAll_concat]
      rfl
  refine ⟨_, full ++ part.toList, hboot, htext, hopen.sectors_eq htext hnil hlast, ?_, ?_, ?_, hmedium⟩
  · intro p hp
    rcases List.mem_append.1 hp with hp | hp
    · exact (hopen.full_len p hp).le
    · exact (hopen.part_len p (by simpa using hp)).le
  · intro houtputs
    obtain ⟨rfl, rfl⟩ := hnil houtputs
    rfl
  · rcases hmedium with ⟨heq, -⟩ | ⟨heq, -⟩
    · rw [heq, written_sectorsFrom]
    · rw [heq]
      exact written_sectorsFrom _ m

/-! ## The law of the ring -/

/-- Behind a full sector the next one is erased already. -/
def spare (m : Medium) : Nat := if m.written.getLast?.any (·.2.length = sectorSize) = true then 1 else 0

/-- The sectors with a header have different numbers. Each sector is written
with the number after that of the one before, next to it around the section, and
only the oldest ones are lost. All payloads together are the texts. -/
structure RingLaw (count : Nat) (m : Medium) (text : List UInt8) : Prop where
  distinct : ∀ i < count, ∀ j < count, ∀ v, sectorNumber format sectorSize m.flash i = some v →
    sectorNumber format sectorSize m.flash j = some v → i = j
  follows : ∀ i w w', m.written[i]? = some w → m.written[i + 1]? = some w' →
    numberOf w'.2 = numberOf w.2 + 1 ∧ w'.1 = (w.1 + sectorSize) % (count * sectorSize)
  kept : ∀ i w, m.written[i]? = some w → m.written.length + spare m ≤ i + count → read m.flash w.1 w.2.length = w.2
  payloads : m.written.flatMap (fun w => w.2.drop headerLen) = text

theorem addr_follows (i : Nat) : addr sectorSize count (i + 1) = (addr sectorSize count i + sectorSize) % (count * sectorSize) := by
  have hadd : addr sectorSize count i + sectorSize = (i % count + 1) * sectorSize := (Nat.succ_mul ..).symm
  rw [hadd, Nat.mul_mod_mul_right, Nat.mod_add_mod, addr]

theorem getElem?_sectorsFrom {payloads : List (List UInt8)} {i : Nat} {w : Nat × List UInt8}
    (h : (sectorsFrom count o n payloads)[i]? = some w) :
    ∃ p, payloads[i]? = some p ∧ w = (addr sectorSize count (o + i), header (n + UInt32.ofNat i) ++ p) := by
  rw [sectorsFrom, List.getElem?_mapIdx] at h
  obtain ⟨p, hp, rfl⟩ := Option.map_eq_some_iff.1 h
  exact ⟨p, hp, rfl⟩

theorem toNat_ofNat {i : Nat} (h : i < UInt32.size) : (UInt32.ofNat i).toNat = i := by
  rw [UInt32.toNat_ofNat']
  exact Nat.mod_eq_of_lt h

/-! ## The first dump -/

/-- Nothing was written to the section, and none of its sectors has a header. -/
structure Blank (count : Nat) (m : Medium) : Prop where
  written : m.written = []
  no_header : ∀ j < count, sectorNumber format sectorSize m.flash j = none

/-- The headers that a boot looks at. -/
theorem headerSeqnum_at (flash : Mem) (i : Nat) :
    headerSeqnum (read flash (i * bufferLen) headerLen) = sectorNumber format sectorSize flash (i * 2) := by
  rw [sectorNumber, Nat.mul_assoc, Nat.mul_comm 2]
  rfl

theorem Blank.start (h : Blank count m) : startSector count m = 0 ∧ startSeqnum count m = 0 := by
  have hscan : ∀ k, k ≤ count / 2 → (List.range k).foldl (scanHeader m.flash) ⟨0, 0, false⟩ = ⟨0, 0, false⟩ := by
    intro k hk
    induction k with
    | zero => rfl
    | succ k ih =>
      rw [List.range_succ, List.foldl_append, ih (by omega), List.foldl_cons, List.foldl_nil, scanHeader,
        headerSeqnum_at, h.no_header (k * 2) (by omega)]
  rw [startSector, startSeqnum, crashDumpGetSeqnum, half_count, hscan _ le_rfl]
  exact ⟨rfl, rfl⟩

/-- The sectors of a first dump. -/
def firstSectors (payloads : List (List UInt8)) : List (List UInt8) :=
  payloads.mapIdx fun i p => header (UInt32.ofNat i) ++ p

theorem area_writeAll (hblank : ∀ j < count, sectorNumber format sectorSize m.flash j = none) {payloads : List (List UInt8)}
    (hlen : ∀ p ∈ payloads, p.length ≤ payloadLen) :
    Area format sectorSize count (writeAll (sectorsFrom count 0 0 payloads) m).flash (firstSectors payloads) 0 := by
  induction payloads using List.reverseRecOn with
  | nil => exact .empty hblank
  | append_singleton payloads p ih =>
    have harea := ih fun q hq => hlen q (by simp [hq])
    have hcount : (firstSectors payloads).length = payloads.length := by simp [firstSectors]
    have hblock : (header (UInt32.ofNat payloads.length) ++ p).length ≤ sectorSize := by
      have hp := hlen p (by simp)
      have hsize := payloadLen_eq
      have hsector := sectorSize_eq
      rw [List.length_append, length_header, headerLen_eq]
      omega
    have hprogram := (harea.erase (by decide) (Nat.zero_le 1)).program (by decide) (fun a ha => erase_of ha)
      (hcount ▸ tagged_header payloads.length p) hblock
    rw [hcount] at hprogram
    have hfirst : firstSectors (payloads ++ [p]) = firstSectors payloads ++ [header (UInt32.ofNat payloads.length) ++ p] := by
      simp [firstSectors]
    rw [sectorsFrom_concat, writeAll_concat, hfirst]
    simp only [Nat.zero_add, UInt32.zero_add]
    rw [addr, crashDumpWrite_sector, if_neg (by simp)]
    exact hprogram

/-- After the first dump: its sectors are in the flash, and were written one after the other. -/
structure Dumped (count : Nat) (m : Medium) (payloads : List (List UInt8)) : Prop where
  written : m.written = sectorsFrom count 0 0 payloads
  area : Area format sectorSize count m.flash (firstSectors payloads) (spare m)

theorem spare_eq {payloads : List (List UInt8)} (h : m.written = sectorsFrom count o n payloads) :
    spare m = if payloads.getLast?.any (·.length = payloadLen) = true then 1 else 0 := by
  have hlen : ∀ p : List UInt8, headerLen + p.length = sectorSize ↔ p.length = payloadLen := by
    intro p
    have hsize := payloadLen_eq
    have hsector := sectorSize_eq
    have hhead := headerLen_eq
    omega
  rw [spare, h, sectorsFrom, List.getLast?_mapIdx, Option.any_map]
  simp only [List.length_append, length_header, hlen]

/-- Without output nothing is written; the first texts are written from the
start of the section on. -/
theorem Blank.boot (h : Blank count m) (hcount : 0 < count) {c : Crash} (hc : c.Plain) :
    ∃ m' payloads, boot (count * sectorSize) c m = some m' ∧ Dumped count m' payloads ∧ payloads.flatten = c.text ∧
      payloads.length = c.sectors ∧ (c.outputs = [] → payloads = []) := by
  obtain ⟨m', payloads, hboot, htext, hsectors, hlen, hnil, -, hm⟩ := boot_spec hcount hc m
  have harea := area_writeAll h.no_header hlen
  have hwritten : (writeAll (sectorsFrom count 0 0 payloads) m).written = sectorsFrom count 0 0 payloads := by
    rw [written_sectorsFrom, h.written, List.nil_append]
  rw [h.start.1, h.start.2] at hm
  refine ⟨m', payloads, hboot, ?_, htext, hsectors, hnil⟩
  rcases hm with ⟨rfl, p, hp, hshort⟩ | ⟨rfl, hfull⟩
  · have hspare : spare (writeAll (sectorsFrom count 0 0 payloads) m) = 0 := by
      rw [spare_eq hwritten, hp, Option.any_some, if_neg (by simpa using hshort.ne)]
    exact ⟨hwritten, hspare.symm ▸ harea⟩
  · have hlength : (firstSectors payloads).length = payloads.length := by simp [firstSectors]
    have herased := harea.erase (by decide) (Nat.zero_le 1)
    rw [hlength] at herased
    rw [Nat.zero_add]
    refine ⟨hwritten, ?_⟩
    cases hlast : payloads.getLast? with
    | none =>
      rw [List.getLast?_eq_none_iff] at hlast
      subst hlast
      have hnil : firstSectors [] = [] := rfl
      rw [hnil] at herased ⊢
      dsimp only
      exact herased.of_nil
    | some p =>
      have hp := hfull p (List.mem_of_getLast? hlast)
      have hspare : ∀ flash, spare ⟨flash, (writeAll (sectorsFrom count 0 0 payloads) m).written⟩ = 1 := by
        intro flash
        rw [spare_eq (m := ⟨flash, _⟩) hwritten, hlast, Option.any_some, if_pos (by simpa using hp)]
      rw [hspare]
      exact herased

theorem Blank.dumped (h : Blank count m) : Dumped count m [] := ⟨h.written, .empty h.no_header⟩

theorem flatMap_sectorsFrom (payloads : List (List UInt8)) :
    (sectorsFrom count o n payloads).flatMap (fun w => w.2.drop headerLen) = payloads.flatten := by
  induction payloads using List.reverseRecOn with
  | nil => rfl
  | append_singleton payloads p ih =>
    rw [sectorsFrom_concat, List.flatMap_append, ih]
    simp [List.drop_left' (length_header _)]

theorem Dumped.law {payloads : List (List UInt8)} (h : Dumped count m payloads) (hlen : payloads.length ≤ UInt32.size) :
    RingLaw count m payloads.flatten := by
  have hcount : (firstSectors payloads).length = payloads.length := by simp [firstSectors]
  refine ⟨fun i hi j hj v hvi hvj => ?_, fun i w w' hw hw' => ?_, fun i w hw hlast => ?_, ?_⟩
  · obtain ⟨a, ha, rfl, rfl⟩ := h.area.last_of_number hi hvi
    obtain ⟨b, hb, rfl, hab⟩ := h.area.last_of_number hj hvj
    have heq := congrArg UInt32.toNat hab
    have ha' := hcount ▸ ha.1
    have hb' := hcount ▸ hb.1
    rw [toNat_ofNat (by omega), toNat_ofNat (by omega)] at heq
    rw [heq]
  · rw [h.written] at hw hw'
    obtain ⟨p, -, rfl⟩ := getElem?_sectorsFrom hw
    obtain ⟨p', hp', rfl⟩ := getElem?_sectorsFrom hw'
    have hi : i + 1 < payloads.length := (List.getElem?_eq_some_iff.1 hp').1
    simp only [numberOf_header, UInt32.zero_add, Nat.zero_add]
    rw [toNat_ofNat (by omega), toNat_ofNat (by omega)]
    exact ⟨rfl, addr_follows i⟩
  · rw [h.written] at hw
    obtain ⟨p, hp, rfl⟩ := getElem?_sectorsFrom hw
    have hi : i < payloads.length := (List.getElem?_eq_some_iff.1 hp).1
    have hwritten : m.written.length = payloads.length := by simp [h.written, sectorsFrom]
    simp only [Nat.zero_add, UInt32.zero_add]
    exact h.area.holds.held i _ ⟨by omega, by omega⟩ (by simp [firstSectors, hp])
  · rw [h.written, flatMap_sectorsFrom]

/-! ## The second dump -/

/-- The numbers have 32 bits. -/
theorem not_law_of_wrap {payloads : List (List UInt8)} {text : List UInt8}
    (hwritten : sectorsFrom count 0 0 payloads <+: m.written) (hlen : UInt32.size < payloads.length) :
    ¬ RingLaw count m text := by
  intro h
  obtain ⟨later, hlater⟩ := hwritten
  have hget : ∀ i, i < payloads.length → ∃ a p, m.written[i]? = some (a, header (UInt32.ofNat i) ++ p) := by
    intro i hi
    have hsector : (sectorsFrom count 0 0 payloads)[i]? = some _ := List.getElem?_eq_getElem (by simpa [sectorsFrom] using hi)
    obtain ⟨p, -, hw⟩ := getElem?_sectorsFrom hsector
    rw [hw, Nat.zero_add, UInt32.zero_add] at hsector
    refine ⟨addr sectorSize count i, p, ?_⟩
    rw [← hlater, List.getElem?_append_left (by simpa [sectorsFrom] using hi), hsector]
  obtain ⟨a, p, hw⟩ := hget (UInt32.size - 1) (by omega)
  obtain ⟨a', p', hw'⟩ := hget UInt32.size hlen
  have hfollows := (h.follows _ _ _ hw hw').1
  rw [numberOf_header, numberOf_header] at hfollows
  exact absurd hfollows (by decide)

/-- After the first `k` of the headers that a boot looks at: the greatest number
and its place, or both are still 0. -/
structure Scanned (flash : Mem) (k : Nat) (r : Scan) : Prop where
  found : (r.max_sector_seqnum < k ∧
      sectorNumber format sectorSize flash (r.max_sector_seqnum * 2) = some r.max_dump_seqnum) ∨
    (r.max_dump_seqnum = 0 ∧ r.max_sector_seqnum = 0)
  existed : r.is_existed = true → 0 < k

theorem scanned_foldl (flash : Mem) (k : Nat) : Scanned flash k ((List.range k).foldl (scanHeader flash) ⟨0, 0, false⟩) := by
  induction k with
  | zero => exact ⟨.inr ⟨rfl, rfl⟩, fun h => absurd h Bool.false_ne_true⟩
  | succ k ih =>
    rw [List.range_succ, List.foldl_append, List.foldl_cons, List.foldl_nil]
    generalize (List.range k).foldl (scanHeader flash) ⟨0, 0, false⟩ = r at ih
    have hfound : (r.max_sector_seqnum < k + 1 ∧
        sectorNumber format sectorSize flash (r.max_sector_seqnum * 2) = some r.max_dump_seqnum) ∨
        (r.max_dump_seqnum = 0 ∧ r.max_sector_seqnum = 0) :=
      ih.found.imp_left fun h => ⟨Nat.lt_succ_of_lt h.1, h.2⟩
    rw [scanHeader, headerSeqnum_at]
    cases hnumber : sectorNumber format sectorSize flash (k * 2) with
    | none => exact ⟨hfound, fun _ => Nat.succ_pos k⟩
    | some seqnum =>
      dsimp only
      split_ifs with hmax
      · exact ⟨.inl ⟨Nat.lt_succ_self k, hnumber⟩, fun _ => Nat.succ_pos k⟩
      · exact ⟨hfound, fun _ => Nat.succ_pos k⟩

theorem getSeqnum_found (count : Nat) (flash : Mem) :
    crashDumpGetSeqnum (count * sectorSize) flash = (0, 0) ∨
    ∃ seqnum i, i < count / 2 ∧ (sectorNumber format sectorSize flash (i * 2) = some seqnum ∨ (seqnum = 0 ∧ i = 0)) ∧
      crashDumpGetSeqnum (count * sectorSize) flash = (seqnum + 1, if i + 1 ≥ count / 2 then 0 else i + 1) := by
  have hscan := scanned_foldl flash (count / 2)
  rw [crashDumpGetSeqnum, half_count]
  generalize (List.range (count / 2)).foldl (scanHeader flash) ⟨0, 0, false⟩ = r at hscan
  by_cases hexisted : r.is_existed = true
  · right
    rw [if_pos hexisted]
    rcases hscan.found with ⟨hlt, hnumber⟩ | ⟨hseqnum, hsector⟩
    · exact ⟨_, _, hlt, .inl hnumber, rfl⟩
    · exact ⟨_, _, hsector.symm ▸ hscan.existed hexisted, .inr ⟨hseqnum, hsector⟩, rfl⟩
  · left
    rw [if_neg hexisted]

/-- A boot after a dump that finds the next number does not find the next sector:
it looks at every second sector, and goes on two sectors behind the last one. -/
theorem Dumped.start_ne {payloads : List (List UInt8)} (h : Dumped count m payloads) (hpos : 0 < payloads.length)
    (hlen : payloads.length ≤ UInt32.size) (hnumber : (startSeqnum count m).toNat = payloads.length) :
    startSector count m ≠ payloads.length % count := by
  have hfirst : (firstSectors payloads).length = payloads.length := by simp [firstSectors]
  unfold startSector startSeqnum at *
  rcases getSeqnum_found count m.flash with hzero | ⟨seqnum, i, hi, hfound, hstart⟩
  · rw [hzero] at hnumber
    exact absurd hnumber.symm hpos.ne'
  · rw [hstart] at hnumber ⊢
    have hseqnum : seqnum.toNat + 1 = payloads.length := by
      have hlt := seqnum.toNat_lt
      rw [UInt32.toNat_add, UInt32.toNat_one] at hnumber
      omega
    -- the last sector of the dump is the one found
    have hlast : (payloads.length - 1) % count = i * 2 := by
      rcases hfound with hfound | ⟨rfl, rfl⟩
      · obtain ⟨a, ha, hmod, rfl⟩ := h.area.last_of_number (by omega) hfound
        rw [hfirst] at ha
        rw [toNat_ofNat (lt_of_lt_of_le ha.1 hlen)] at hseqnum
        rw [← hseqnum, Nat.add_sub_cancel, hmod]
      · rw [← hseqnum]
        rfl
    have hnext : payloads.length % count = i * 2 + 1 := by
      rw [show payloads.length = payloads.length - 1 + 1 by omega, ← Nat.mod_add_mod, hlast]
      exact Nat.mod_eq_of_lt (by omega)
    rw [hnext]
    dsimp only
    split_ifs <;> omega

/-- The first sector of a second dump does not follow the last one of the first. -/
theorem Dumped.not_law_of_second {m' : Medium} {payloads payloads' : List (List UInt8)} {text : List UInt8}
    (h : Dumped count m payloads) (hcount : 0 < count) (hpos : 0 < payloads.length)
    (hlen : payloads.length ≤ UInt32.size) (hnext : payloads' ≠ [])
    (hwritten : m.written ++ sectorsFrom count (startSector count m) (startSeqnum count m) payloads' <+: m'.written) :
    ¬ RingLaw count m' text := by
  intro hlaw
  obtain ⟨later, hlater⟩ := hwritten
  have hlength : m.written.length = payloads.length := by simp [h.written, sectorsFrom]
  obtain ⟨p, hp⟩ : ∃ p, payloads[payloads.length - 1]? = some p := ⟨_, List.getElem?_eq_getElem (by omega)⟩
  have hw : m'.written[payloads.length - 1]? =
      some (addr sectorSize count (payloads.length - 1), header (UInt32.ofNat (payloads.length - 1)) ++ p) := by
    rw [← hlater, List.append_assoc, List.getElem?_append_left (by omega), h.written]
    simp [sectorsFrom, hp]
  obtain ⟨p', rest, rfl⟩ := List.exists_cons_of_ne_nil hnext
  have hw' : m'.written[payloads.length - 1 + 1]? =
      some (addr sectorSize count (startSector count m), header (startSeqnum count m) ++ p') := by
    rw [← hlater, List.append_assoc, List.getElem?_append_right (by omega), hlength,
      show payloads.length - 1 + 1 - payloads.length = 0 by omega]
    simp [sectorsFrom]
  obtain ⟨hnumber, haddr⟩ := hlaw.follows _ _ _ hw hw'
  rw [numberOf_header, numberOf_header, toNat_ofNat (by omega), Nat.sub_add_cancel hpos] at hnumber
  rw [← addr_follows, Nat.sub_add_cancel hpos, addr, addr, Nat.mod_eq_of_lt (startSector_lt hcount m)] at haddr
  exact h.start_ne hpos hlen hnumber (Nat.mul_right_cancel (by decide) haddr)

/-! ## All boots -/

theorem Crash.sectors_pos {c : Crash} (h : c.outputs ≠ []) : 0 < c.sectors := by
  unfold Crash.sectors
  by_cases hlong : c.text.length % payloadLen ≠ 0
  · rw [if_pos (.inl hlong)]
    exact Nat.succ_pos _
  · rcases Nat.eq_zero_or_pos c.text.length with hzero | hpos
    · obtain ⟨x, hx⟩ : ∃ x, c.outputs.getLast? = some x := ⟨_, List.getLast?_eq_some_getLast h⟩
      have hempty : x.buf = [] := by
        have hnil := List.flatMap_eq_nil_iff.1 (List.length_eq_zero_iff.1 hzero)
        exact hnil x (List.mem_of_getLast? hx)
      simp [hx, hempty]
    · have hdiv := Nat.div_add_mod c.text.length payloadLen
      rcases Nat.eq_zero_or_pos (c.text.length / payloadLen) with hquot | hquot
      · rw [hquot] at hdiv
        omega
      · exact Nat.add_pos_left hquot _

theorem boots_cons (flash_len : Nat) (c : Crash) (crashes : List Crash) (m : Medium) :
    boots flash_len (c :: crashes) m = (boot flash_len c m).bind (boots flash_len crashes) := rfl

/-- Boots return, and what is written stays written. -/
theorem boots_written (hcount : 0 < count) {crashes : List Crash} (h : ∀ c ∈ crashes, c.Plain) (m : Medium) :
    ∃ m', boots (count * sectorSize) crashes m = some m' ∧ m.written <+: m'.written := by
  induction crashes generalizing m with
  | nil => exact ⟨m, rfl, List.prefix_rfl⟩
  | cons c crashes ih =>
    obtain ⟨m₁, payloads, hboot, -, -, -, -, hwritten, -⟩ := boot_spec hcount (h c (by simp)) m
    obtain ⟨m', hboots, hprefix⟩ := ih (fun c' hc' => h c' (by simp [hc'])) m₁
    refine ⟨m', by rw [boots_cons, hboot]; exact hboots, List.IsPrefix.trans ⟨_, hwritten.symm⟩ hprefix⟩

/-- Boots whose crashes put nothing out. -/
theorem Blank.boots_silent (h : Blank count m) (hcount : 0 < count) {silent : List Crash}
    (hsilent : ∀ c ∈ silent, c.outputs = []) :
    ∃ m', boots (count * sectorSize) silent m = some m' ∧ Blank count m' := by
  induction silent generalizing m with
  | nil => exact ⟨m, rfl, h⟩
  | cons c silent ih =>
    have houtputs := hsilent c (by simp)
    obtain ⟨m₁, payloads, hboot, hdumped, -, -, hnil⟩ := h.boot hcount (c := c) (by simp [Crash.Plain, houtputs])
    obtain rfl := hnil houtputs
    have hblank : Blank count m₁ := by
      refine ⟨hdumped.written, fun j hj => hdumped.area.blank j hj fun i hi => ?_⟩
      exact absurd hi.1 (Nat.not_lt_zero i)
    obtain ⟨m', hboots, hm'⟩ := ih hblank fun c' hc' => hsilent c' (by simp [hc'])
    exact ⟨m', by rw [boots_cons, hboot]; exact hboots, hm'⟩

/-- Over all boots the law of the ring holds if and only if there is one dump at
most, and its sectors have numbers of 32 bits. A crash that puts nothing out
comes before the dump only: its end has nothing to write. -/
theorem ring_law_iff (hcount : 0 < count) {flash : Mem}
    (hblank : ∀ j < count, sectorNumber format sectorSize flash j = none) {silent dumps : List Crash}
    (hsilent : ∀ c ∈ silent, c.outputs = []) (hdumps : ∀ c ∈ dumps, c.outputs ≠ [] ∧ c.Plain) :
    ∃ m, boots (count * sectorSize) (silent ++ dumps) ⟨flash, []⟩ = some m ∧
      (RingLaw count m (dumps.flatMap Crash.text) ↔ dumps.length ≤ 1 ∧ ∀ c ∈ dumps, c.sectors ≤ 2 ^ 32) := by
  obtain ⟨m₀, hboots₀, hblank₀⟩ := Blank.boots_silent (m := ⟨flash, []⟩) ⟨rfl, hblank⟩ hcount hsilent
  have hsplit : boots (count * sectorSize) (silent ++ dumps) ⟨flash, []⟩ = boots (count * sectorSize) dumps m₀ := by
    rw [boots, List.foldlM_append, ← boots, hboots₀]
    rfl
  rw [hsplit]
  cases dumps with
  | nil => exact ⟨m₀, rfl, iff_of_true (hblank₀.dumped.law (Nat.zero_le _)) ⟨Nat.zero_le 1, by simp⟩⟩
  | cons c rest =>
    obtain ⟨houtputs, hc⟩ := hdumps c (by simp)
    obtain ⟨m₁, payloads, hboot, hdumped, htext, hsectors, -⟩ := hblank₀.boot hcount hc
    have hpos : 0 < payloads.length := hsectors ▸ Crash.sectors_pos houtputs
    rw [boots_cons, hboot, Option.bind_some]
    have hrest : ∀ c' ∈ rest, c'.Plain := fun c' hc' => (hdumps c' (by simp [hc'])).2
    obtain ⟨m, hboots, hprefix⟩ := boots_written hcount hrest m₁
    refine ⟨m, hboots, ?_⟩
    by_cases hlen : payloads.length ≤ UInt32.size
    · cases rest with
      | nil =>
        cases hboots
        refine iff_of_true ?_ ⟨le_rfl, by simpa [← hsectors] using hlen⟩
        simpa [← htext] using hdumped.law hlen
      | cons c₂ rest =>
        refine iff_of_false ?_ (by simp)
        obtain ⟨houtputs₂, hc₂⟩ := hdumps c₂ (by simp)
        obtain ⟨m₂, payloads₂, hboot₂, -, hsectors₂, -, -, hwritten₂, -⟩ := boot_spec hcount hc₂ m₁
        have hnext : payloads₂ ≠ [] := List.ne_nil_of_length_pos (hsectors₂ ▸ Crash.sectors_pos houtputs₂)
        have hrest₂ : ∀ c' ∈ rest, c'.Plain := fun c' hc' => (hdumps c' (by simp [hc'])).2
        obtain ⟨m', hboots', hprefix'⟩ := boots_written hcount hrest₂ m₂
        rw [boots_cons, hboot₂, Option.bind_some, hboots'] at hboots
        cases hboots
        exact hdumped.not_law_of_second hcount hpos hlen hnext (hwritten₂ ▸ hprefix')
    · refine iff_of_false (not_law_of_wrap (hdumped.written ▸ hprefix) (Nat.lt_of_not_le hlen)) fun hcond => ?_
      exact hlen (hsectors ▸ hcond.2 c (by simp))

/-- A crash that puts out one byte. -/
def oneByte (b : UInt8) : Crash := ⟨false, [⟨[b], [0]⟩]⟩

theorem erased_blank : ∀ j < 4, sectorNumber format sectorSize (fun _ => 0xff) j = none := fun _ _ =>
  sectorNumber_erased (by decide) fun _ _ => rfl

theorem ring_law_iff_example : ∃ m, boots (4 * sectorSize) [oneByte 65] ⟨fun _ => 0xff, []⟩ = some m ∧
    RingLaw 4 m [65] := by
  have hplain : (oneByte 65).Plain := by
    intro x hx
    obtain rfl := List.mem_singleton.1 hx
    exact ⟨by decide, by decide⟩
  obtain ⟨m, hm, hiff⟩ := ring_law_iff (by decide) erased_blank (fun _ h => absurd h List.not_mem_nil)
    (fun c hc => by rw [List.mem_singleton.1 hc]; exact ⟨by decide, hplain⟩ : ∀ c ∈ [oneByte 65], c.outputs ≠ [] ∧ c.Plain)
  refine ⟨m, hm, hiff.2 ⟨le_rfl, fun c hc => ?_⟩⟩
  rw [List.mem_singleton.1 hc]
  decide

/-- Two crashes put out one byte each: the second dump leaves out a sector. -/
theorem ring_law_broken : ¬ ∀ (count : Nat) (flash : Mem) (crashes : List Crash) (m : Medium), 0 < count →
    (∀ j < count, sectorNumber format sectorSize flash j = none) → (∀ c ∈ crashes, c.outputs ≠ [] ∧ c.Plain) →
    boots (count * sectorSize) crashes ⟨flash, []⟩ = some m → RingLaw count m (crashes.flatMap Crash.text) := by
  intro hclaim
  have hgood : (boots (4 * sectorSize) [oneByte 65, oneByte 66] ⟨fun _ => 0xff, []⟩).any
      (fun m => m.written.map Prod.fst = [0, 2 * sectorSize]) = true := by decide +kernel
  obtain ⟨m, hm, hoffs⟩ := (Option.any_eq_true _ _).1 hgood
  have hlaw := hclaim 4 _ _ m (by decide) erased_blank (fun c hc => ?_) hm
  · have hoffs := of_decide_eq_true hoffs
    obtain ⟨w, w', hw⟩ : ∃ w w', m.written = [w, w'] := by
      have hlen := congrArg List.length hoffs
      rw [List.length_map] at hlen
      exact List.length_eq_two.1 hlen
    have hfollows := (hlaw.follows 0 w w' (by rw [hw]; rfl) (by rw [hw]; rfl)).2
    obtain ⟨h₀, h₁⟩ : w.1 = 0 ∧ w'.1 = 2 * sectorSize := by simpa [hw] using hoffs
    rw [h₀, h₁] at hfollows
    exact absurd hfollows (by decide)
  · refine ⟨?_, fun x hx => ?_⟩
    · rcases List.mem_pair.1 hc with rfl | rfl <;> decide
    · rcases List.mem_pair.1 hc with rfl | rfl <;> obtain rfl := List.mem_singleton.1 hx <;> exact ⟨by decide, by decide⟩

end CrashDump
