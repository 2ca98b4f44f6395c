import LittleBuddy.Lib.Bytes
import LittleBuddy.Lib.Cursor
import LittleBuddy.Lib.Runs
import Mathlib.Data.List.Nodup
/-!
# Fast Pair transmit chunks

`services/bt_app/app_fp_rfcomm.cpp` copies each message it sends into a chunk of
a small buffer, posts the chunk to the BT thread and writes it there. The pool
of chunks knows only the next chunk and how many are in use. The system keeps
the calls of `app_fp_rfcomm_send` that are under way, the posted handlers and
the writes that wait for their `RFCOMM_TX_DONE`; these own their chunks.
-/
open Bytes Cursor Runs

namespace BtApp.TxChunks

/-! ## The code -/

/-- `FP_RFCOMM_TX_BUF_CHUNK_CNT` and `FP_RFCOMM_TX_BUF_CHUNK_SIZE`. -/
abbrev chunkCnt : Nat := 6
abbrev chunkSize : Nat := 64

/-- `fp_rfcomm_tx_buf_next_allocated_chunk` and `fp_rfcomm_tx_buf_allocated_chunk_cnt`. -/
structure Pool where
  next_allocated_chunk : Nat
  allocated_chunk_cnt : Nat

/-- `fp_rfcomm_alloc_tx_chunk`; -1 is `none`. -/
def fpRfcommAllocTxChunk (p : Pool) : Option Nat × Pool :=
  if p.allocated_chunk_cnt ≥ chunkCnt then (none, p)
  else (some p.next_allocated_chunk, ⟨next chunkCnt p.next_allocated_chunk, p.allocated_chunk_cnt + 1⟩)

/-- `fp_rfcomm_free_tx_chunk`. -/
def fpRfcommFreeTxChunk (p : Pool) : Bool × Pool :=
  if p.allocated_chunk_cnt = 0 then (false, p)
  else (true, { p with allocated_chunk_cnt := p.allocated_chunk_cnt - 1 })

/-- `fp_rfcomm_reset_tx_buf`. -/
def fpRfcommResetTxBuf : Pool := ⟨0, 0⟩

/-- `memcpy` to the start of a chunk. -/
def copyTo (chunk : Nat → UInt8) (data : List UInt8) : Nat → UInt8 := fun i =>
  if i < data.length then bufferOf data i else chunk i

/-! ## Runs -/

/-- A message that has its chunk. -/
structure Send where
  chunk : Nat
  data : List UInt8
  copied : Bool

/-- `checked` are the calls that have found the service connected and have no
chunk yet, `calls` those with a chunk, in the order in which they got it, `mail`
the posted handlers and `written` the writes without `RFCOMM_TX_DONE`. `handed`
has the bytes of each write with the message it was for. -/
structure Sys where
  isConnected : Bool
  pool : Pool
  tx_buf : Nat → Nat → UInt8
  checked : List (List UInt8)
  calls : List Send
  mail : List Send
  written : List Send
  handed : List (List UInt8 × List UInt8)

/-- One step of a call of `app_fp_rfcomm_send` (`send` to `post`; the calls are
counted from the oldest), an execution of the posted handler, or an event of
`fp_rfcomm_callback`. -/
inductive Event where
  | send (ptrData : List UInt8)
  | alloc (k : Nat)
  | copy (k : Nat)
  | post (k : Nat)
  | sendHandler (written : Bool)
  | txDone
  | disconnected
  | connected

/-- What the chunk of a message holds, as long as the message. -/
def Sys.bytes (s : Sys) (c : Send) : List UInt8 := read (s.tx_buf c.chunk) 0 c.data.length

/-- A call with a chunk takes no further step if its message is too long: the
assertion stops the device. -/
def step : Event → Sys → Option Sys
  | .send data, s => some (if s.isConnected then { s with checked := s.checked ++ [data] } else s)
  | .alloc k, s => (s.checked[k]?).map fun data =>
    match fpRfcommAllocTxChunk s.pool with
    | (none, pool) => { s with pool, checked := s.checked.eraseIdx k }
    | (some chunk, pool) => { s with pool, checked := s.checked.eraseIdx k, calls := s.calls ++ [⟨chunk, data, false⟩] }
  | .copy k, s => (s.calls[k]?).bind fun c =>
    if c.copied = false ∧ c.data.length < chunkSize then
      some { s with tx_buf := Function.update s.tx_buf c.chunk (copyTo (s.tx_buf c.chunk) c.data),
                    calls := s.calls.set k { c with copied := true } }
    else none
  | .post k, s => (s.calls[k]?).bind fun c =>
    if c.copied then some { s with calls := s.calls.eraseIdx k, mail := s.mail ++ [c] } else none
  | .sendHandler ok, s =>
    match s.mail with
    | [] => none
    | c :: mail =>
      let s := { s with mail, handed := s.handed ++ [(s.bytes c, c.data)] }
      some (if ok then { s with written := s.written ++ [c] } else { s with pool := (fpRfcommFreeTxChunk s.pool).2 })
  | .txDone, s =>
    match s.written with
    | [] => none
    | _ :: written => some { s with written, pool := (fpRfcommFreeTxChunk s.pool).2 }
  | .disconnected, s => some { s with isConnected := false, pool := fpRfcommResetTxBuf, written := [] }
  | .connected, s => some { s with isConnected := true }

/-- Before the first connection. -/
def init (s : Sys) : Prop :=
  s.isConnected = false ∧ s.pool = ⟨0, 0⟩ ∧ s.checked = [] ∧ s.calls = [] ∧ s.mail = [] ∧ s.written = [] ∧ s.handed = []

/-- The messages that own a chunk. -/
def Sys.owned (s : Sys) : List Send := s.written ++ (s.mail ++ s.calls)

/-- Chunks are given back in the order in which they were given out, and the
pool is reset only when no message is on its way to `app_rfcomm_write`. -/
def InOrder (e : Event) (s : Sys) : Prop :=
  match e with
  | .post k => k = 0
  | .sendHandler false => s.written = []
  | .disconnected => s.mail = [] ∧ s.calls = []
  | _ => True

instance (e : Event) (s : Sys) : Decidable (InOrder e s) :=
  match e with
  | .post k => inferInstanceAs (Decidable (k = 0))
  | .sendHandler false => decidable_of_iff (s.written.isEmpty = true) List.isEmpty_iff
  | .disconnected =>
    decidable_of_iff (s.mail.isEmpty = true ∧ s.calls.isEmpty = true) (and_congr List.isEmpty_iff List.isEmpty_iff)
  | .send _ | .alloc _ | .copy _ | .sendHandler true | .txDone | .connected => inferInstanceAs (Decidable True)

/-- No chunk has two owners, a copied message stays in its chunk, and what was
written is what was to be sent. -/
structure Exclusive (s : Sys) : Prop where
  owner : (s.owned.map Send.chunk).Nodup
  intact : ∀ c ∈ s.owned, c.copied = true → s.bytes c = c.data
  handed : ∀ p ∈ s.handed, p.1 = p.2

/-! ## The chunks in use follow one another -/

/-- The chunks in use, from the oldest on, and the next one behind them. -/
structure Inv (s : Sys) : Prop where
  chunks : ∃ r < chunkCnt, s.owned.map Send.chunk = cells id chunkCnt r s.pool.allocated_chunk_cnt ∧
    s.pool.next_allocated_chunk = (next chunkCnt)^[s.pool.allocated_chunk_cnt] r
  cnt : s.pool.allocated_chunk_cnt ≤ chunkCnt
  mail : ∀ c ∈ s.mail, c.copied = true
  intact : ∀ c ∈ s.owned, c.copied = true → s.bytes c = c.data
  handed : ∀ p ∈ s.handed, p.1 = p.2

variable {s s' : Sys}

theorem Inv.exclusive (h : Inv s) : Exclusive s := by
  obtain ⟨r, hr, hchunks, -⟩ := h.chunks
  refine ⟨?_, h.intact, h.handed⟩
  rw [hchunks]
  exact nodup_cells_id hr h.cnt

theorem Inv.length (h : Inv s) : s.owned.length = s.pool.allocated_chunk_cnt := by
  obtain ⟨r, -, hchunks, -⟩ := h.chunks
  simpa using congrArg List.length hchunks

theorem read_copyTo (chunk : Nat → UInt8) (data : List UInt8) : read (copyTo chunk data) 0 data.length = data := by
  calc read (copyTo chunk data) 0 data.length
      = read (bufferOf data) 0 data.length := read_congr fun i _ hi => if_pos (by omega)
    _ = data := read_bufferOf_self data

/-- The oldest owner gives its chunk back. -/
theorem chunks_free {c : Send} {l l' : List Send} {p : Pool} (hl : l = c :: l')
    (h : ∃ r < chunkCnt, l.map Send.chunk = cells id chunkCnt r p.allocated_chunk_cnt ∧
      p.next_allocated_chunk = (next chunkCnt)^[p.allocated_chunk_cnt] r) :
    ∃ r < chunkCnt, l'.map Send.chunk = cells id chunkCnt r (fpRfcommFreeTxChunk p).2.allocated_chunk_cnt ∧
      (fpRfcommFreeTxChunk p).2.next_allocated_chunk =
        (next chunkCnt)^[(fpRfcommFreeTxChunk p).2.allocated_chunk_cnt] r := by
  obtain ⟨r, hr, hchunks, hnext⟩ := h
  obtain ⟨q, cnt⟩ := p
  subst hl
  cases cnt with
  | zero => simp [cells] at hchunks
  | succ k =>
    simp only [List.map_cons, cells, List.cons.injEq] at hchunks
    exact ⟨next chunkCnt r, next_lt hr, by simpa [fpRfcommFreeTxChunk] using hchunks.2,
      by simpa [fpRfcommFreeTxChunk] using hnext⟩

theorem freeTxChunk_cnt_le (p : Pool) : (fpRfcommFreeTxChunk p).2.allocated_chunk_cnt ≤ p.allocated_chunk_cnt := by
  unfold fpRfcommFreeTxChunk
  split
  · exact Nat.le_refl _
  · exact Nat.sub_le ..

/-! ## One lemma a step -/

theorem Inv.alloc {k : Nat} (h : Inv s) (hs : step (.alloc k) s = some s') : Inv s' := by
  obtain ⟨data, -, rfl⟩ := Option.map_eq_some_iff.1 hs
  unfold fpRfcommAllocTxChunk
  by_cases hfull : s.pool.allocated_chunk_cnt ≥ chunkCnt
  · rw [if_pos hfull]
    exact { h with }
  · rw [if_neg hfull]
    obtain ⟨r, hr, hchunks, hnext⟩ := h.chunks
    refine ⟨⟨r, hr, ?_, ?_⟩, Nat.lt_of_not_le hfull, h.mail, ?_, h.handed⟩
    · -- the chunk is the one behind those in use
      rw [cells_snoc, ← hchunks, ← hnext]
      simp [Sys.owned]
    · rw [Function.iterate_succ_apply', ← hnext]
    · intro c hc hcopied
      simp only [Sys.owned, ← List.append_assoc] at hc
      rcases List.mem_append.1 hc with hold | hnew
      · exact h.intact c (by simpa [Sys.owned] using hold) hcopied
      · rw [List.mem_singleton.1 hnew] at hcopied
        cases hcopied

theorem Inv.copy {k : Nat} (h : Inv s) (hs : step (.copy k) s = some s') : Inv s' := by
  obtain ⟨c, hget, hs⟩ := Option.bind_eq_some_iff.1 hs
  split at hs
  case isFalse => cases hs
  case isTrue hc =>
  obtain rfl := Option.some.inj hs
  have hmem : c ∈ s.owned := by simp [Sys.owned, List.mem_of_getElem? hget]
  have hsame : (s.calls.set k { c with copied := true }).map Send.chunk = s.calls.map Send.chunk := by
    apply List.ext_getElem?
    intro i
    by_cases hi : i = k
    · subst hi
      rw [List.getElem?_map, List.getElem?_map, List.getElem?_set_self (List.getElem?_eq_some_iff.1 hget).1, hget]
      rfl
    · rw [List.getElem?_map, List.getElem?_map, List.getElem?_set_ne (Ne.symm hi)]
  refine ⟨?_, h.cnt, h.mail, ?_, h.handed⟩
  · simpa [Sys.owned, hsame] using h.chunks
  · intro d hd hcopied
    have hcases : d = { c with copied := true } ∨ d ∈ s.owned := by
      simp only [Sys.owned, List.mem_append] at hd ⊢
      rcases hd with hd | hd | hd
      · exact .inr (.inl hd)
      · exact .inr (.inr (.inl hd))
      · rcases List.mem_or_eq_of_mem_set hd with hd | hd
        · exact .inr (.inr (.inr hd))
        · exact .inl hd
    rcases hcases with rfl | hold
    · simpa [Sys.bytes] using read_copyTo (s.tx_buf c.chunk) c.data
    · have hne : d.chunk ≠ c.chunk := by
        intro heq
        obtain rfl := List.inj_on_of_nodup_map h.exclusive.owner hold hmem heq
        simp [hc.1] at hcopied
      simpa [Sys.bytes, Function.update_of_ne hne] using h.intact d hold hcopied

theorem Inv.post (h : Inv s) (hs : step (.post 0) s = some s') : Inv s' := by
  obtain ⟨c, hget, hs⟩ := Option.bind_eq_some_iff.1 hs
  split at hs
  case isFalse => cases hs
  case isTrue hc =>
  obtain rfl := Option.some.inj hs
  obtain ⟨rest, hrest⟩ : ∃ rest, s.calls = c :: rest := by
    cases hcalls : s.calls with
    | nil => simp [hcalls] at hget
    | cons d rest => exact ⟨rest, by simpa [hcalls] using hget⟩
  have howned : Sys.owned { s with calls := s.calls.eraseIdx 0, mail := s.mail ++ [c] } = s.owned := by
    simp [Sys.owned, hrest]
  refine ⟨by rw [howned]; exact h.chunks, h.cnt, ?_, by rw [howned]; exact h.intact, h.handed⟩
  intro d hd
  rcases List.mem_append.1 hd with hd | hd
  · exact h.mail d hd
  · rw [List.mem_singleton.1 hd]
    exact hc

/-- What stays owned is still intact after the oldest owner has left. -/
theorem Inv.intact_tail {c : Send} {l : List Send} (h : Inv s) (hl : s.owned = c :: l) :
    ∀ d ∈ l, d.copied = true → s.bytes d = d.data := fun d hd => h.intact d (by rw [hl]; exact List.mem_cons_of_mem c hd)

theorem Inv.sendHandler {ok : Bool} (h : Inv s) (hc : InOrder (.sendHandler ok) s)
    (hs : step (.sendHandler ok) s = some s') : Inv s' := by
  obtain ⟨c, mail, hmail⟩ : ∃ c mail, s.mail = c :: mail := by
    cases hmail : s.mail with
    | nil => simp [step, hmail] at hs
    | cons c mail => exact ⟨c, mail, rfl⟩
  simp only [step, hmail] at hs
  obtain rfl := Option.some.inj hs
  have hcmem : c ∈ s.mail := by simp [hmail]
  have hmail' : ∀ d ∈ mail, d.copied = true := fun d hd => h.mail d (by simp [hmail, hd])
  have hhanded : ∀ p ∈ s.handed ++ [(s.bytes c, c.data)], p.1 = p.2 := by
    intro p hp
    rcases List.mem_append.1 hp with hp | hp
    · exact h.handed p hp
    · rw [List.mem_singleton.1 hp]
      exact h.intact c (by simp [Sys.owned, hmail]) (h.mail c hcmem)
  cases ok with
  | true =>
    have howned : s.written ++ [c] ++ (mail ++ s.calls) = s.owned := by simp [Sys.owned, hmail]
    exact ⟨by simpa [Sys.owned, hmail] using h.chunks, h.cnt, hmail',
      fun d hd => h.intact d (by rwa [← howned]), hhanded⟩
  | false =>
    -- nothing is written, so the failed write is the oldest owner
    have hw : s.written = [] := hc
    have howned : s.owned = c :: (mail ++ s.calls) := by simp [Sys.owned, hw, hmail]
    refine ⟨?_, Nat.le_trans (freeTxChunk_cnt_le s.pool) h.cnt, hmail', ?_, hhanded⟩
    · simpa [Sys.owned, hw] using chunks_free howned h.chunks
    · intro d hd hcopied
      exact h.intact_tail howned d (by simpa [Sys.owned, hw] using hd) hcopied

theorem Inv.txDone (h : Inv s) (hs : step .txDone s = some s') : Inv s' := by
  obtain ⟨c, written, hw⟩ : ∃ c written, s.written = c :: written := by
    cases hw : s.written with
    | nil => simp [step, hw] at hs
    | cons c written => exact ⟨c, written, rfl⟩
  simp only [step, hw] at hs
  obtain rfl := Option.some.inj hs
  have howned : s.owned = c :: (written ++ (s.mail ++ s.calls)) := by simp [Sys.owned, hw]
  exact ⟨chunks_free howned h.chunks, Nat.le_trans (freeTxChunk_cnt_le s.pool) h.cnt, h.mail, h.intact_tail howned, h.handed⟩

theorem Inv.disconnected (h : Inv s) (hmail : s.mail = []) (hcalls : s.calls = []) :
    Inv { s with isConnected := false, pool := fpRfcommResetTxBuf, written := [] } := by
  refine ⟨⟨0, by decide, ?_, rfl⟩, Nat.zero_le _, h.mail, ?_, h.handed⟩
  · simp [Sys.owned, hmail, hcalls, fpRfcommResetTxBuf, cells]
  · intro c hc
    simp [Sys.owned, hmail, hcalls] at hc

theorem init_inv (h : init s) : Inv s := by
  obtain ⟨-, hpool, -, hcalls, hmail, hwritten, hhanded⟩ := h
  refine ⟨⟨0, by decide, ?_, by rw [hpool]; rfl⟩, by simp [hpool], by simp [hmail], ?_, by simp [hhanded]⟩
  · simp [Sys.owned, hcalls, hmail, hwritten, hpool, cells]
  · intro c hc
    simp [Sys.owned, hcalls, hmail, hwritten] at hc

theorem step_inv (e : Event) (s s' : Sys) (h : Inv s) (hc : InOrder e s) (hs : step e s = some s') : Inv s' := by
  cases e with
  | send data =>
    obtain rfl := Option.some.inj hs
    split
    · exact { h with }
    · exact h
  | alloc k => exact h.alloc hs
  | copy k => exact h.copy hs
  | post k =>
    obtain rfl : k = 0 := hc
    exact h.post hs
  | sendHandler ok => exact h.sendHandler hc hs
  | txDone => exact h.txDone hs
  | disconnected =>
    obtain rfl := Option.some.inj hs
    exact h.disconnected hc.1 hc.2
  | connected =>
    obtain rfl := Option.some.inj hs
    exact { h with }

/-- As long as chunks come back in order no chunk is given to a second owner,
and every message is written as it was to be sent. -/
theorem chunks_exclusive {evs : List Event} (h : Run step InOrder init s evs) : Exclusive s :=
  (h.inv Inv (fun _ => init_inv) step_inv).exclusive

/-! ## Out of order -/

/-- Before the first connection, with an empty buffer. -/
def poweredOn : Sys := ⟨false, ⟨0, 0⟩, fun _ _ => 0, [], [], [], [], []⟩

/-- The steps of a whole call. -/
def sendAll (data : List UInt8) : List Event := [.send data, .alloc 0, .copy 0, .post 0]

theorem chunks_exclusive_example : ∃ s, Run step InOrder init s
    (.connected :: sendAll [1] ++ sendAll [2] ++ [.sendHandler true, .txDone, .sendHandler false, .disconnected]) ∧
    s.handed = [([1], [1]), ([2], [2])] ∧ Exclusive s := by
  obtain ⟨s, hrun, hs⟩ := exists_run_of_check step InOrder init (some poweredOn)
    (.connected :: sendAll [1] ++ sendAll [2] ++ [.sendHandler true, .txDone, .sendHandler false, .disconnected])
    (fun s => decide (s.handed = [([1], [1]), ([2], [2])])) (by rintro _ ⟨⟩; exact ⟨rfl, rfl, rfl, rfl, rfl, rfl, rfl⟩)
    (by decide +kernel)
  exact ⟨s, hrun, of_decide_eq_true hs, chunks_exclusive hrun⟩

/-- A second write fails before the first is done, four more messages follow,
and a fifth gets the chunk of the first write, which is not done yet. And after
a disconnection a message gets the chunk of one that is still posted. -/
theorem chunk_given_twice :
    (∃ s, Run step (fun _ _ => True) init s
      (.connected :: sendAll [1] ++ .sendHandler true :: sendAll [2] ++ .sendHandler false :: sendAll [3] ++
        sendAll [4] ++ sendAll [5] ++ sendAll [6] ++ sendAll [7]) ∧ ¬ Exclusive s) ∧
    (∃ s, Run step (fun _ _ => True) init s
      (.connected :: sendAll [1] ++ .disconnected :: .connected :: sendAll [2] ++ [.sendHandler true]) ∧
      s.handed = [([2], [1])] ∧ ¬ Exclusive s) := by
  constructor
  · obtain ⟨s, hrun, hs⟩ := exists_run_of_check step (fun _ _ => True) init (some poweredOn)
      (.connected :: sendAll [1] ++ .sendHandler true :: sendAll [2] ++ .sendHandler false :: sendAll [3] ++
        sendAll [4] ++ sendAll [5] ++ sendAll [6] ++ sendAll [7])
      (fun s => decide ¬ (s.owned.map Send.chunk).Nodup) (by rintro _ ⟨⟩; exact ⟨rfl, rfl, rfl, rfl, rfl, rfl, rfl⟩)
      (by decide +kernel)
    exact ⟨s, hrun, fun h => of_decide_eq_true hs h.owner⟩
  · obtain ⟨s, hrun, hs⟩ := exists_run_of_check step (fun _ _ => True) init (some poweredOn)
      (.connected :: sendAll [1] ++ .disconnected :: .connected :: sendAll [2] ++ [.sendHandler true])
      (fun s => decide (s.handed = [([2], [1])])) (by rintro _ ⟨⟩; exact ⟨rfl, rfl, rfl, rfl, rfl, rfl, rfl⟩)
      (by decide +kernel)
    have hhanded : s.handed = [([2], [1])] := of_decide_eq_true hs
    refine ⟨s, hrun, hhanded, fun h => ?_⟩
    have := h.handed ([2], [1]) (by simp [hhanded])
    simp at this

end BtApp.TxChunks
