import LittleBuddy.Lib.Ring
import Mathlib.Data.List.DropRight
/-!
# The byte queue

The functions of `utils/cqueue/cqueue.c`: a ring of bytes with a read and a
write index. `CQueue.Holds` says which list a queue holds; every operation has
one lemma that carries it over, and `cqueue_refines_list` puts them together for
any sequence of operations. `EnCQueue_AI`, which makes room by dropping the oldest
bytes, comes last.

The fields are `int`s, so sizes are below `2 ^ 31` and nothing here overflows.
-/
open Ring

namespace Utils

/-- `CQ_OK` and `CQ_ERR`. -/
inductive CqRet where
  | ok | err
  deriving DecidableEq

/-- `CQueue`, with the memory that `base` points to. -/
structure CQueue where
  read : Int
  write : Int
  size : Int
  len : Int
  base : Int → UInt8

/-- `InitCQueue` of a buffer that is not `NULL`. -/
def initCQueue (size : Nat) (buf : Int → UInt8) : CQueue := ⟨0, 0, size, 0, buf⟩

/-- `LengthOfCQueue`. -/
def lengthOfCQueue (q : CQueue) : Int := q.len

/-- `AvailableOfCQueue`. -/
def availableOfCQueue (q : CQueue) : Int := q.size - q.len

/-- `EnCQueue`. -/
def enCQueue (q : CQueue) (e : List UInt8) : CqRet × CQueue :=
  if availableOfCQueue q < e.length then (.err, q)
  else
    let q := { q with len := q.len + e.length }
    let bytesToTheEnd : Int := q.size - q.write
    if bytesToTheEnd > e.length then
      (.ok, { q with base := store q.base q.write e, write := q.write + e.length })
    else
      let base := store q.base q.write (e.take bytesToTheEnd.toNat)
      (.ok, { q with base := store base 0 (e.drop bytesToTheEnd.toNat), write := e.length - bytesToTheEnd })

/-- The loop of `EnCQueueFront`, which goes through `e` from its end. -/
def enCQueueFrontLoop (size : Int) : List UInt8 → Int × (Int → UInt8) → Int × (Int → UInt8)
  | [], s => s
  | b :: e, (read, base) =>
    let base := store base read [b]
    let read := read - 1
    enCQueueFrontLoop size e (if read < 0 then size - 1 else read, base)

/-- `EnCQueueFront`. -/
def enCQueueFront (q : CQueue) (e : List UInt8) : CqRet × CQueue :=
  if availableOfCQueue q < e.length then (.err, q)
  else
    let read := if q.read = 0 then q.size - 1 else q.read - 1
    let (read, base) := enCQueueFrontLoop q.size e.reverse (read, q.base)
    -- one step too far
    let read := if read = q.size - 1 then 0 else read + 1
    (.ok, { q with len := q.len + e.length, read, base })

/-- `DeCQueue`, with the bytes it copies to `e` unless that is `NULL`. -/
def deCQueue (q : CQueue) (toBuf : Bool) (len : Nat) : CqRet × List UInt8 × CQueue :=
  if lengthOfCQueue q < len then (.err, [], q)
  else
    let q := { q with len := q.len - len }
    if toBuf then
      let bytesToTheEnd : Int := q.size - q.read
      if bytesToTheEnd > len then
        (.ok, span q.base q.read len, { q with read := q.read + len })
      else
        (.ok, span q.base q.read bytesToTheEnd.toNat ++ span q.base 0 (len - bytesToTheEnd).toNat,
          { q with read := len - bytesToTheEnd })
    else (.ok, [], { q with read := if 0 < q.size then (q.read + len) % q.size else 0 })

/-- What `PeekCQueue` returns: `e1` as an index, `len1`, `e2` and `len2`. -/
structure Peek where
  e1 : Int
  len1 : Nat
  e2 : Option Int
  len2 : Nat

/-- `PeekCQueue`. -/
def peekCQueue (q : CQueue) (len_want : Nat) : CqRet × Option Peek :=
  if lengthOfCQueue q < len_want then (.err, none)
  else if q.write > q.read || q.size - q.read ≥ len_want then (.ok, some ⟨q.read, len_want, none, 0⟩)
  else
    let len1 := (q.size - q.read).toNat
    (.ok, some ⟨q.read, len1, some 0, len_want - len1⟩)

/-- The bytes that a `Peek` points to. -/
def Peek.bytes (p : Peek) (base : Int → UInt8) : List UInt8 :=
  span base p.e1 p.len1 ++ match p.e2 with
    | some e2 => span base e2 p.len2
    | none => []

/-- `PeekCQueueToBuf`. -/
def peekCQueueToBuf (q : CQueue) (len : Nat) : CqRet × List UInt8 :=
  match peekCQueue q len with
  | (.ok, some p) => if len = p.len1 + p.len2 then (.ok, p.bytes q.base) else (.err, [])
  | _ => (.err, [])

/-- `PullCQueue`. -/
def pullCQueue (q : CQueue) (len : Nat) : CqRet × List UInt8 × CQueue :=
  match peekCQueue q len with
  | (.ok, some p) =>
    if len = p.len1 + p.len2 then (.ok, p.bytes q.base, (deCQueue q false len).2.2) else (.err, [], q)
  | _ => (.err, [], q)

/-- `ResetCQueue`. -/
def resetCQueue (q : CQueue) : CQueue := { q with len := 0, read := 0, write := 0 }

/-! ## The list that a queue holds -/

/-- The bytes from `read` on, `len` long, wrapping at `size`. -/
def CQueue.content (q : CQueue) : List UInt8 := Ring.content q.base q.size q.read q.len.toNat

/-- `q` is a queue of `n` bytes that holds `l`. -/
structure CQueue.Holds (q : CQueue) (n : Nat) (l : List UInt8) : Prop where
  size : q.size = n
  len : q.len = l.length
  fits : l.length ≤ n
  read : 0 ≤ q.read ∧ (q.read < n ∨ q.read = 0)
  write : q.write = wrap n (q.read + l.length)
  content : Ring.content q.base n q.read l.length = l

variable {q : CQueue} {n : Nat} {l : List UInt8}

theorem CQueue.Holds.content_eq (h : q.Holds n l) : q.content = l := by
  rw [CQueue.content, h.size, h.len, Int.toNat_natCast, h.content]

theorem holds_init (size : Nat) (buf : Int → UInt8) : (initCQueue size buf).Holds size [] where
  size := rfl
  len := rfl
  fits := Nat.zero_le _
  read := ⟨Int.le_refl 0, .inr rfl⟩
  write := by
    unfold wrap
    split_ifs <;> simp_all [initCQueue]
  content := rfl

theorem CQueue.Holds.reset (h : q.Holds n l) : (resetCQueue q).Holds n [] where
  size := h.size
  len := rfl
  fits := Nat.zero_le _
  read := ⟨Int.le_refl 0, .inr rfl⟩
  write := by
    unfold wrap
    split_ifs <;> simp_all [resetCQueue]
  content := rfl

/-! ## What the operations do to the list -/

theorem enCQueue_full (h : q.Holds n l) {e : List UInt8} (he : n < l.length + e.length) : enCQueue q e = (.err, q) := by
  have hsize := h.size
  have hlen := h.len
  unfold enCQueue availableOfCQueue
  rw [if_pos (by omega)]

/-- An accepted `EnCQueue` appends. -/
theorem enCQueue_ok (h : q.Holds n l) {e : List UInt8} (he : l.length + e.length ≤ n) :
    ∃ q', enCQueue q e = (.ok, q') ∧ q'.Holds n (l ++ e) := by
  obtain ⟨hsize, hlen, hfits, hread, hwrite, hcontent⟩ := h
  unfold enCQueue availableOfCQueue
  rw [if_neg (by omega)]
  have hw : (q.write = q.read + l.length ∧ q.read + l.length < n) ∨
      (q.write = q.read + l.length - n ∧ n ≤ q.read + l.length) := by
    rw [hwrite]
    unfold wrap
    split_ifs <;> omega
  have happ : ∀ m' : Int → UInt8, Written q.base m' n q.write e → Ring.content m' n q.read (l ++ e).length = l ++ e := by
    intro m' hm
    rw [hwrite] at hm
    rw [List.length_append, content_written hm (by omega) (by omega), hcontent]
  simp only [hsize]
  split
  · refine ⟨_, rfl, rfl, ?_, ?_, hread, ?_, happ _ (written_store (by omega))⟩
    · simp [hlen]
    · simpa using he
    · unfold wrap
      simp only [List.length_append]
      split_ifs <;> omega
  · refine ⟨_, rfl, rfl, ?_, ?_, hread, ?_, happ _ (written_stores (by omega) (by omega) (by omega))⟩
    · simp [hlen]
    · simpa using he
    · unfold wrap
      simp only [List.length_append]
      split_ifs <;> omega

theorem enCQueueFront_full (h : q.Holds n l) {e : List UInt8} (he : n < l.length + e.length) :
    enCQueueFront q e = (.err, q) := by
  have hsize := h.size
  have hlen := h.len
  unfold enCQueueFront availableOfCQueue
  rw [if_pos (by omega)]

/-- The index behind `i`, as `EnCQueueFront` computes it at its end. -/
def behind (size i : Int) : Int := if i = size - 1 then 0 else i + 1

theorem behind_bounds {size i : Int} (h : 0 ≤ i ∧ i < size) : 0 ≤ behind size i ∧ behind size i < size := by
  unfold behind
  split <;> omega

/-- Every iteration prepends one byte to what is behind the index. -/
theorem enCQueueFrontLoop_spec {size : Int} (e : List UInt8) {read : Int} {base : Int → UInt8} {l : List UInt8}
    (hread : 0 ≤ read ∧ read < size) (hfit : l.length + e.length ≤ size)
    (hl : Ring.content base size (behind size read) l.length = l) :
    ∃ read' base', enCQueueFrontLoop size e (read, base) = (read', base') ∧ (0 ≤ read' ∧ read' < size) ∧
      wrap size (behind size read' + e.length) = behind size read ∧
      Ring.content base' size (behind size read') (e.length + l.length) = e.reverse ++ l := by
  induction e generalizing read base l with
  | nil =>
    have hb := behind_bounds hread
    exact ⟨read, base, rfl, hread, by simpa using wrap_of_lt hb.2, by simpa using hl⟩
  | cons b e ih =>
    have hbehind : wrap size (read + 1) = behind size read := by
      unfold wrap behind
      split_ifs <;> omega
    have hprev : behind size (if read - 1 < 0 then size - 1 else read - 1) = read := by
      unfold behind
      split_ifs <;> omega
    simp only [List.length_cons] at hfit
    have hcons := content_front base l.length b hread (by omega)
    rw [hbehind, hl] at hcons
    obtain ⟨read', base', hrun, hread', hback, hcontent⟩ := @ih (if read - 1 < 0 then size - 1 else read - 1)
      (store base read [b]) (b :: l) (by split_ifs <;> omega)
      (by simp only [List.length_cons]; omega) (by rw [hprev]; exact hcons)
    refine ⟨read', base', hrun, hread', ?_, ?_⟩
    · rw [hprev] at hback
      have hb := behind_bounds hread'
      rw [← hbehind]
      unfold wrap at hback ⊢
      simp only [List.length_cons]
      split_ifs at hback ⊢ <;> omega
    · rw [List.length_cons] at hcontent ⊢
      rw [List.reverse_cons, List.append_assoc, List.singleton_append, ← hcontent]
      congr 1
      omega

/-- An accepted `EnCQueueFront` prepends. -/
theorem enCQueueFront_ok (h : q.Holds n l) {e : List UInt8} (he : l.length + e.length ≤ n) :
    ∃ q', enCQueueFront q e = (.ok, q') ∧ q'.Holds n (e ++ l) := by
  obtain ⟨hsize, hlen, hfits, hread, hwrite, hcontent⟩ := h
  unfold enCQueueFront availableOfCQueue
  rw [if_neg (by omega)]
  simp only [hsize]
  have hprev : behind n (if q.read = 0 then (n : Int) - 1 else q.read - 1) = q.read := by
    unfold behind
    split_ifs <;> omega
  by_cases hn : n = 0
  · -- an empty ring: the loop does nothing
    subst hn
    have he₀ : e = [] := List.eq_nil_of_length_eq_zero (by omega)
    have hl₀ : l = [] := List.eq_nil_of_length_eq_zero (by omega)
    subst he₀ hl₀
    have hr : q.read = 0 := by omega
    refine ⟨_, rfl, rfl, ?_, by simp, ?_, ?_, by simp [Ring.content]⟩
    · simp [hlen]
    · simp [enCQueueFrontLoop, hr]
    · simp [enCQueueFrontLoop, hr, hwrite]
  · obtain ⟨read', base', hrun, hread', hback, hcontent'⟩ := @enCQueueFrontLoop_spec n e.reverse
      (if q.read = 0 then (n : Int) - 1 else q.read - 1) q.base l (by split_ifs <;> omega)
      (by rw [List.length_reverse]; omega) (by rw [hprev]; exact hcontent)
    have hb := behind_bounds hread'
    rw [hrun]
    rw [List.length_reverse] at hback hcontent'
    rw [List.reverse_reverse] at hcontent'
    refine ⟨_, rfl, rfl, ?_, ?_, ⟨hb.1, .inl hb.2⟩, ?_, ?_⟩
    · simp [hlen]
      omega
    · rw [List.length_append]
      omega
    · rw [hprev] at hback
      show q.write = wrap n (behind n read' + (e ++ l).length)
      rw [hwrite, ← hback, List.length_append, wrap_add (by omega)]
      congr 1
      omega
    · rw [List.length_append]
      exact hcontent'

theorem deCQueue_short (h : q.Holds n l) {toBuf : Bool} {len : Nat} (hl : l.length < len) :
    deCQueue q toBuf len = (.err, [], q) := by
  have hlen := h.len
  unfold deCQueue lengthOfCQueue
  rw [if_pos (by omega)]

/-- The queue after `DeCQueue` holds the rest of the list. -/
theorem CQueue.Holds.drop (h : q.Holds n l) {len : Nat} (hl : len ≤ l.length) (read : Int)
    (hr : read = wrap n (q.read + len)) : CQueue.Holds { q with len := q.len - len, read } n (l.drop len) := by
  obtain ⟨hsize, hlen, hfits, hread, hwrite, hcontent⟩ := h
  have hdrop := drop_content q.base n q.read l.length len (by omega)
  rw [hcontent, ← hr] at hdrop
  refine ⟨hsize, ?_, ?_, ?_, ?_, ?_⟩
  · simp only [List.length_drop]
    omega
  · rw [List.length_drop]
    omega
  · simp only [hr]
    unfold wrap
    split_ifs <;> omega
  · simp only [hr, hwrite, List.length_drop]
    unfold wrap
    split_ifs <;> omega
  · rw [List.length_drop]
    exact hdrop.symm

/-- An accepted `DeCQueue` takes the first bytes of the list, and hands them out
if there is a buffer. -/
theorem deCQueue_ok (h : q.Holds n l) (toBuf : Bool) {len : Nat} (hl : len ≤ l.length) :
    ∃ q', deCQueue q toBuf len = (.ok, if toBuf then l.take len else [], q') ∧ q'.Holds n (l.drop len) := by
  have hlen := h.len
  have hfits := h.fits
  have hread := h.read
  have hsize := h.size
  have htake := take_content q.base n q.read len hl
  rw [h.content] at htake
  unfold deCQueue lengthOfCQueue
  rw [if_neg (by omega)]
  dsimp only
  split
  · split
    · refine ⟨_, ?_, h.drop hl (q.read + len) (wrap_of_lt (by omega)).symm⟩
      rw [htake, content_eq_span (by omega)]
    · refine ⟨_, ?_, h.drop hl (len - (q.size - q.read)) ?_⟩
      · rw [htake, content_eq_spans (n := (q.size - q.read).toNat) (by omega) (by omega)]
        have hrest : ((len : Int) - (q.size - q.read)).toNat = len - (q.size - q.read).toNat := by omega
        rw [hrest]
      · rw [wrap_of_le (by omega)]
        omega
  · refine ⟨_, rfl, h.drop hl _ ?_⟩
    rw [hsize]
    split
    · unfold wrap
      split_ifs
      · exact Int.emod_eq_of_lt (by omega) (by assumption)
      · rw [← Int.sub_emod_right]
        exact Int.emod_eq_of_lt (by omega) (by omega)
    · unfold wrap
      split_ifs <;> omega

/-- `PeekCQueue` points to the first bytes of the list. -/
theorem peekCQueue_ok (h : q.Holds n l) {len : Nat} (hl : len ≤ l.length) :
    ∃ p, peekCQueue q len = (.ok, some p) ∧ p.bytes q.base = l.take len ∧ len = p.len1 + p.len2 := by
  have hlen := h.len
  have hfits := h.fits
  have hread := h.read
  have hsize := h.size
  have hwrite := h.write
  have htake := take_content q.base n q.read len hl
  rw [h.content] at htake
  unfold peekCQueue lengthOfCQueue
  rw [if_neg (by omega)]
  unfold wrap at hwrite
  split
  · rename_i hc
    -- the content does not wrap: either it ends in front of `write`, or the bytes end in front of the end
    have hfit : q.read + len ≤ n := by
      simp only [Bool.or_eq_true, decide_eq_true_eq] at hc
      split_ifs at hwrite <;> omega
    refine ⟨_, rfl, ?_, rfl⟩
    rw [htake, content_eq_span hfit]
    simp [Peek.bytes]
  · rename_i hc
    simp only [Bool.or_eq_true, decide_eq_true_eq, not_or] at hc
    refine ⟨_, rfl, ?_, by dsimp only; omega⟩
    rw [htake, content_eq_spans (n := (q.size - q.read).toNat) (by omega) (by omega)]
    rfl

theorem peekCQueue_short (h : q.Holds n l) {len : Nat} (hl : l.length < len) : peekCQueue q len = (.err, none) := by
  have hlen := h.len
  unfold peekCQueue lengthOfCQueue
  rw [if_pos (by omega)]

theorem peekCQueueToBuf_eq (h : q.Holds n l) (len : Nat) :
    peekCQueueToBuf q len = if len ≤ l.length then (.ok, l.take len) else (.err, []) := by
  unfold peekCQueueToBuf
  split
  · rename_i p hp
    by_cases hl : len ≤ l.length
    · obtain ⟨p', hp', hb, hlen⟩ := peekCQueue_ok h hl
      rw [hp] at hp'
      cases hp'
      rw [if_pos hlen, if_pos hl, hb]
    · rw [peekCQueue_short h (by omega)] at hp
      cases hp
  · rename_i hne
    rw [if_neg]
    intro hl
    obtain ⟨p, hp, -⟩ := peekCQueue_ok h hl
    exact hne p hp

/-- `PullCQueue` takes the first bytes of the list and hands them out. -/
theorem pullCQueue_ok (h : q.Holds n l) {len : Nat} (hl : len ≤ l.length) :
    ∃ q', pullCQueue q len = (.ok, l.take len, q') ∧ q'.Holds n (l.drop len) := by
  obtain ⟨p, hp, hb, hlen⟩ := peekCQueue_ok h hl
  obtain ⟨q', hq', hh⟩ := deCQueue_ok h false hl
  refine ⟨q', ?_, hh⟩
  unfold pullCQueue
  rw [hp, hq']
  simp only [if_pos hlen, hb]

theorem pullCQueue_short (h : q.Holds n l) {len : Nat} (hl : l.length < len) : pullCQueue q len = (.err, [], q) := by
  unfold pullCQueue
  rw [peekCQueue_short h hl]

/-! ## Any sequence of operations -/

inductive Op where
  | enCQueue (e : List UInt8)
  | enCQueueFront (e : List UInt8)
  | deCQueue (toBuf : Bool) (len : Nat)
  | peekCQueue (len : Nat)
  | peekCQueueToBuf (len : Nat)
  | pullCQueue (len : Nat)
  | resetCQueue

/-- What a call returns and hands out. -/
abbrev Out := CqRet × List UInt8

def CQueue.call : Op → CQueue → Out × CQueue
  | .enCQueue e, q =>
    let (r, q) := Utils.enCQueue q e
    ((r, []), q)
  | .enCQueueFront e, q =>
    let (r, q) := Utils.enCQueueFront q e
    ((r, []), q)
  | .deCQueue toBuf len, q =>
    let (r, out, q) := Utils.deCQueue q toBuf len
    ((r, out), q)
  | .peekCQueue len, q =>
    let (r, p) := Utils.peekCQueue q len
    ((r, (p.map (·.bytes q.base)).getD []), q)
  | .peekCQueueToBuf len, q => (Utils.peekCQueueToBuf q len, q)
  | .pullCQueue len, q =>
    let (r, out, q) := Utils.pullCQueue q len
    ((r, out), q)
  | .resetCQueue, q => ((.ok, []), Utils.resetCQueue q)

/-- The same operations on a list of at most `n` bytes: append, prepend, take,
look and clear. -/
def Op.onList (n : Nat) : Op → List UInt8 → Out × List UInt8
  | .enCQueue e, l => if l.length + e.length ≤ n then ((.ok, []), l ++ e) else ((.err, []), l)
  | .enCQueueFront e, l => if l.length + e.length ≤ n then ((.ok, []), e ++ l) else ((.err, []), l)
  | .deCQueue toBuf len, l =>
    if len ≤ l.length then ((.ok, if toBuf then l.take len else []), l.drop len) else ((.err, []), l)
  | .peekCQueue len, l => if len ≤ l.length then ((.ok, l.take len), l) else ((.err, []), l)
  | .peekCQueueToBuf len, l => if len ≤ l.length then ((.ok, l.take len), l) else ((.err, []), l)
  | .pullCQueue len, l => if len ≤ l.length then ((.ok, l.take len), l.drop len) else ((.err, []), l)
  | .resetCQueue, _ => ((.ok, []), [])

/-- The results of a sequence of calls, and the state after it. -/
def calls {σ : Type} (call : Op → σ → Out × σ) : List Op → σ → List Out × σ
  | [], s => ([], s)
  | op :: ops, s =>
    let (out, s) := call op s
    let (outs, s) := calls call ops s
    (out :: outs, s)

theorem onList_err {op : Op} (h : (op.onList n l).1.1 = .err) : (op.onList n l).2 = l := by
  cases op with
  | resetCQueue => cases h
  | _ =>
    simp only [Op.onList] at h ⊢
    split_ifs at h ⊢
    simp_all

/-- One call does to the queue what it does to the list. -/
theorem call_spec (h : q.Holds n l) (op : Op) :
    (q.call op).1 = (op.onList n l).1 ∧ (q.call op).2.Holds n (op.onList n l).2 := by
  cases op with
  | enCQueue e =>
    simp only [CQueue.call, Op.onList]
    split
    · obtain ⟨q', hq, hh⟩ := enCQueue_ok h (by assumption)
      simp only [hq]
      exact ⟨trivial, hh⟩
    · simp only [enCQueue_full h (Nat.lt_of_not_le (by assumption))]
      exact ⟨trivial, h⟩
  | enCQueueFront e =>
    simp only [CQueue.call, Op.onList]
    split
    · obtain ⟨q', hq, hh⟩ := enCQueueFront_ok h (by assumption)
      simp only [hq]
      exact ⟨trivial, hh⟩
    · simp only [enCQueueFront_full h (Nat.lt_of_not_le (by assumption))]
      exact ⟨trivial, h⟩
  | deCQueue toBuf len =>
    simp only [CQueue.call, Op.onList]
    split
    · obtain ⟨q', hq, hh⟩ := deCQueue_ok h toBuf (by assumption)
      simp only [hq]
      exact ⟨trivial, hh⟩
    · simp only [deCQueue_short h (Nat.lt_of_not_le (by assumption))]
      exact ⟨trivial, h⟩
  | peekCQueue len =>
    simp only [CQueue.call, Op.onList]
    split
    · obtain ⟨p, hp, hb, -⟩ := peekCQueue_ok h (by assumption)
      simp only [hp, Option.map_some, Option.getD_some, hb]
      exact ⟨trivial, h⟩
    · simp only [peekCQueue_short h (Nat.lt_of_not_le (by assumption))]
      exact ⟨rfl, h⟩
  | peekCQueueToBuf len =>
    simp only [CQueue.call, Op.onList, peekCQueueToBuf_eq h]
    split
    · exact ⟨rfl, h⟩
    · exact ⟨rfl, h⟩
  | pullCQueue len =>
    simp only [CQueue.call, Op.onList]
    split
    · obtain ⟨q', hq, hh⟩ := pullCQueue_ok h (by assumption)
      simp only [hq]
      exact ⟨trivial, hh⟩
    · simp only [pullCQueue_short h (Nat.lt_of_not_le (by assumption))]
      exact ⟨trivial, h⟩
  | resetCQueue => exact ⟨rfl, h.reset⟩

theorem calls_spec (h : q.Holds n l) (ops : List Op) :
    (calls CQueue.call ops q).1 = (calls (Op.onList n) ops l).1 ∧
      (calls CQueue.call ops q).2.Holds n (calls (Op.onList n) ops l).2 := by
  induction ops generalizing q l with
  | nil => exact ⟨rfl, h⟩
  | cons op ops ih =>
    obtain ⟨hout, hq⟩ := call_spec h op
    obtain ⟨houts, hqs⟩ := ih hq
    exact ⟨congrArg₂ _ hout houts, hqs⟩

/-- Any sequence of calls on a queue of any size: it returns and hands out what
the operations on a list do, it holds that list, and a call that fails leaves the
content as it was. -/
theorem cqueue_refines_list (size : Nat) (buf : Int → UInt8) (ops : List Op) :
    (calls CQueue.call ops (initCQueue size buf)).1 = (calls (Op.onList size) ops []).1 ∧
      (calls CQueue.call ops (initCQueue size buf)).2.content = (calls (Op.onList size) ops []).2 ∧
      ∀ op, ((calls CQueue.call ops (initCQueue size buf)).2.call op).1.1 = .err →
        ((calls CQueue.call ops (initCQueue size buf)).2.call op).2.content =
          (calls CQueue.call ops (initCQueue size buf)).2.content := by
  obtain ⟨hout, hq⟩ := calls_spec (holds_init size buf) ops
  refine ⟨hout, hq.content_eq, fun op herr => ?_⟩
  obtain ⟨hcall, hnext⟩ := call_spec hq op
  rw [hcall] at herr
  rw [hnext.content_eq, hq.content_eq, onList_err herr]

/-! ## The enqueue that overwrites -/

/-- `EnCQueue_AI`. -/
def enCQueueAI (q : CQueue) (e : List UInt8) : CqRet × CQueue :=
  let bytesToTheEnd : Int := q.size - q.write
  let readBytesToTheEnd : Int := q.size - q.read
  let q :=
    if availableOfCQueue q < e.length then
      -- `read` skips as many bytes as come in, also where some of them have room
      { q with read := if readBytesToTheEnd > e.length then q.read + e.length else e.length - readBytesToTheEnd }
    else { q with len := q.len + e.length }
  if bytesToTheEnd > e.length then
    (.ok, { q with base := store q.base q.write e, write := q.write + e.length })
  else
    let base := store q.base q.write (e.take bytesToTheEnd.toNat)
    (.ok, { q with base := store base 0 (e.drop bytesToTheEnd.toNat), write := e.length - bytesToTheEnd })

/-- `q` is a queue of `l` after `e` came in, of which the last `n` bytes are left. -/
structure CQueue.Overwritten (q : CQueue) (n : Nat) (l e : List UInt8) : Prop where
  content : q.content = (l ++ e).rtake n
  write : q.write = (q.read + q.len) % n
  len : q.len = min n (l.length + e.length)

theorem enCQueueAI_fits (h : q.Holds n l) {e : List UInt8} (he : l.length + e.length ≤ n) :
    enCQueueAI q e = enCQueue q e := by
  have hsize := h.size
  have hlen := h.len
  have hroom : ¬ q.size - q.len < e.length := by omega
  simp only [enCQueueAI, enCQueue, availableOfCQueue, hroom, if_false]

/-- Data that does not fit drops as many bytes as it has, and the length stays. -/
theorem enCQueueAI_over (h : q.Holds n l) {e : List UInt8} (he : e.length ≤ n) (hover : n < l.length + e.length) :
    ∃ q', enCQueueAI q e = (.ok, q') ∧ q'.Holds n ((l ++ e).drop e.length) := by
  obtain ⟨hsize, hlen, hfits, hread, hwrite, hcontent⟩ := h
  have hr : 0 ≤ q.read ∧ q.read < n := by omega
  have hw : (q.write = q.read + l.length ∧ q.read + l.length < n) ∨
      (q.write = q.read + l.length - n ∧ n ≤ q.read + l.length) := by
    rw [hwrite]
    unfold wrap
    split_ifs <;> omega
  have hlast : Last q.base n q.write l := by
    have hl := last_of_content q.base hr hfits
    rwa [hcontent, ← hwrite] at hl
  -- whatever way the bytes are copied, `read` and `write` move on by their number
  have hafter : ∀ m' read' write', Written q.base m' n q.write e → read' = wrap n (q.read + e.length) →
      write' = wrap n (q.write + e.length) →
      CQueue.Holds { q with base := m', read := read', write := write' } n ((l ++ e).drop e.length) := by
    intro m' read' write' hm hr' hw'
    have hmoved : wrap n (read' + l.length) = write' := by
      subst hr' hw'
      unfold wrap
      split_ifs <;> omega
    have hkept : content m' n read' l.length = (l ++ e).drop ((l ++ e).length - l.length) := by
      apply (hlast.written hm (by omega) he).content_eq
      · unfold wrap
        split_ifs <;> omega
      · subst hr'
        unfold wrap
        split_ifs <;> omega
      · exact hmoved.trans hw'
      · exact hfits
      · simp
    have hcount : ((l ++ e).drop e.length).length = l.length := by simp
    refine ⟨hsize, by rw [hcount]; exact hlen, by rw [hcount]; exact hfits, ?_, by rw [hcount]; exact hmoved.symm, ?_⟩
    · subst hr'
      dsimp only
      unfold wrap
      split_ifs <;> omega
    · rw [hcount, hkept, List.length_append, Nat.add_sub_cancel_left]
  have hroom : q.size - q.len < e.length := by omega
  have hread' : (if q.size - q.read > e.length then q.read + e.length else e.length - (q.size - q.read)) =
      wrap n (q.read + e.length) := by
    unfold wrap
    split_ifs <;> omega
  simp only [enCQueueAI, availableOfCQueue, hroom, if_true]
  split
  · refine ⟨_, rfl, hafter _ _ _ (written_store (by omega)) hread' ?_⟩
    rw [wrap_of_lt (by omega)]
  · refine ⟨_, rfl, hafter _ _ _ (written_stores (by omega) (by omega) (by omega)) hread' ?_⟩
    rw [wrap_of_le (by omega)]
    omega

/-- The indices of a queue are a content apart. -/
theorem CQueue.Holds.write_eq (h : q.Holds n l) : q.write = (q.read + q.len) % n := by
  obtain ⟨-, hlen, hfits, hread, hwrite, -⟩ := h
  rw [hwrite, hlen]
  unfold wrap
  split_ifs
  · rw [Int.emod_eq_of_lt (by omega) (by assumption)]
  · rw [← Int.sub_emod_right]
    rcases Nat.eq_zero_or_pos n with rfl | hn
    · simp
    · rw [Int.emod_eq_of_lt (by omega) (by omega)]

/-- `EnCQueue_AI` keeps the last bytes exactly if the data fits or the queue is
full: otherwise the room that is left stays unused, and old bytes are lost in its
place. -/
theorem overwrites_iff (h : q.Holds n l) {e : List UInt8} (he : e.length ≤ n) :
    (∃ q', enCQueueAI q e = (.ok, q') ∧ q'.Overwritten n l e) ↔ l.length + e.length ≤ n ∨ l.length = n := by
  by_cases hfit : l.length + e.length ≤ n
  · obtain ⟨q', hq, hh⟩ := enCQueue_ok h hfit
    refine iff_of_true ⟨q', (enCQueueAI_fits h hfit).trans hq, ?_, hh.write_eq, ?_⟩ (.inl hfit)
    · have hall : (l ++ e).length - n = 0 := by
        rw [List.length_append]
        omega
      rw [hh.content_eq, List.rtake, hall, List.drop_zero]
    · rw [hh.len, List.length_append]
      omega
  · obtain ⟨q', hq, hh⟩ := enCQueueAI_over h he (by omega)
    have hlen : q'.len = l.length := by
      rw [hh.len]
      simp
    have hfits := h.fits
    constructor
    · rintro ⟨q'', hq'', -, -, hmin⟩
      rw [hq] at hq''
      cases hq''
      omega
    · rintro (hf | hfull)
      · exact absurd hf hfit
      · refine ⟨q', hq, ?_, hh.write_eq, ?_⟩
        · have hdrop : (l ++ e).length - n = e.length := by
            rw [List.length_append]
            omega
          rw [hh.content_eq, List.rtake, hdrop]
        · omega

/-- A queue of four bytes that holds three. -/
theorem overwrites_three :
    ∃ q : CQueue, q = (enCQueue (initCQueue 4 fun _ => 0) [1, 2, 3]).2 ∧
      ((∃ q', enCQueueAI q [4] = (.ok, q') ∧ q'.Overwritten 4 [1, 2, 3] [4]) ↔ [1, 2, 3].length + [4].length ≤ 4 ∨ [1, 2, 3].length = 4) := by
  obtain ⟨q', hq, hh⟩ := enCQueue_ok (holds_init 4 fun _ => 0) (e := [1, 2, 3]) (by decide)
  refine ⟨_, rfl, overwrites_iff ?_ (by decide)⟩
  rw [hq]
  exact hh

/-- Two more bytes come to it: it holds the last three, and the oldest of the last
four is gone. -/
theorem room_unused :
    ∃ q : CQueue, q = (enCQueue (initCQueue 4 fun _ => 0) [1, 2, 3]).2 ∧ q.Holds 4 [1, 2, 3] ∧
      (enCQueueAI q [4, 5]).2.content = [3, 4, 5] ∧ (enCQueueAI q [4, 5]).2.len = 3 ∧
      ¬ ∃ q', enCQueueAI q [4, 5] = (.ok, q') ∧ q'.Overwritten 4 [1, 2, 3] [4, 5] := by
  obtain ⟨q', hq, hh⟩ := enCQueue_ok (holds_init 4 fun _ => 0) (e := [1, 2, 3]) (by decide)
  refine ⟨_, rfl, ?_, by decide, by decide, ?_⟩
  · rw [hq]
    exact hh
  · rintro ⟨q'', hq'', -, -, hlen⟩
    have h3 : (enCQueueAI (enCQueue (initCQueue 4 fun _ => 0) [1, 2, 3]).2 [4, 5]).2.len = 3 := by decide
    rw [hq''] at h3
    simp only at h3
    simp [h3] at hlen

end Utils
