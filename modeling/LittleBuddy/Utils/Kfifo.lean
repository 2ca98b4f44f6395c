import LittleBuddy.Lib.Bytes
import LittleBuddy.Lib.Ring
/-!
# The FIFO with free-running counters

`utils/kfifo/kfifo.c`: the counters `in` and `out` are never reduced, and their
lowest bits are the places in the buffer, whose size is a power of two. As the size
divides `2 ^ 32` the counters may wrap, and their difference is still what is stored.
-/
open Bytes Ring

namespace Utils

/-! ## The code -/

/-- `struct kfifo`, with the memory that `buffer` points to. -/
structure Kfifo where
  buffer : Int → UInt8
  size : UInt32
  in_ : UInt32
  out : UInt32

/-- `fifo->buffer + (counter & (fifo->size - 1))`. -/
def Kfifo.offset (fifo : Kfifo) (counter : UInt32) : UInt32 := counter &&& (fifo.size - 1)

/-- `MIN`. -/
def kfifoMin (a b : UInt32) : UInt32 := if a < b then a else b

/-- `kfifo_put` of the `len` bytes at the start of `buffer`. -/
def kfifoPut (fifo : Kfifo) (buffer : Nat → UInt8) (len : UInt32) : UInt32 × Kfifo :=
  let len := kfifoMin len (fifo.size - fifo.in_ + fifo.out)
  let l := kfifoMin len (fifo.size - fifo.offset fifo.in_)
  let mem := store fifo.buffer (fifo.offset fifo.in_).toNat (read buffer 0 l.toNat)
  let mem := store mem 0 (read buffer l.toNat (len - l).toNat)
  (len, { fifo with buffer := mem, in_ := fifo.in_ + len })

/-- `kfifo_get`, with the bytes that it copies. -/
def kfifoGet (fifo : Kfifo) (len : UInt32) : UInt32 × List UInt8 × Kfifo :=
  let len := kfifoMin len (fifo.in_ - fifo.out)
  let l := kfifoMin len (fifo.size - fifo.offset fifo.out)
  (len, span fifo.buffer (fifo.offset fifo.out).toNat l.toNat ++ span fifo.buffer 0 (len - l).toNat,
    { fifo with out := fifo.out + len })

/-- `buff1`, `len1`, `buff2` and `len2` of `kfifo_peek`; `none` is `NULL`. -/
structure KfifoPeek where
  buff1 : Option Int
  len1 : UInt32
  buff2 : Option Int
  len2 : UInt32

/-- `kfifo_peek`. -/
def kfifoPeek (fifo : Kfifo) (len_want : UInt32) : UInt32 × KfifoPeek :=
  let len := kfifoMin len_want (fifo.in_ - fifo.out)
  if len < len_want then (0, ⟨none, 0, none, 0⟩)
  else
    let l := kfifoMin len (fifo.size - fifo.offset fifo.out)
    if l < len then (len_want, ⟨some (fifo.offset fifo.out).toNat, l, some 0, len - l⟩)
    else (len_want, ⟨some (fifo.offset fifo.out).toNat, l, none, 0⟩)

/-- What `memcpy` copies from a pointer; from `NULL` only nothing. -/
def Kfifo.copied (fifo : Kfifo) (buff : Option Int) (len : UInt32) : List UInt8 :=
  match buff with
  | some a => span fifo.buffer a len.toNat
  | none => []

/-- `kfifo_peek_to_buf`, with the bytes that it copies. -/
def kfifoPeekToBuf (fifo : Kfifo) (len : UInt32) : UInt32 × List UInt8 :=
  let p := (kfifoPeek fifo len).2
  if len = p.len1 + p.len2 then (len, fifo.copied p.buff1 p.len1 ++ fifo.copied p.buff2 p.len2) else (0, [])

/-- `kfifo_len`. -/
def kfifoLen (fifo : Kfifo) : UInt32 := fifo.in_ - fifo.out

/-! ## The list that a FIFO holds -/

/-- `fifo` has a buffer of `2 ^ k` bytes and holds `l`. -/
structure Kfifo.Holds (fifo : Kfifo) (k : Nat) (l : List UInt8) : Prop where
  size : fifo.size.toNat = 2 ^ k
  len : (kfifoLen fifo).toNat = l.length
  fits : l.length ≤ 2 ^ k
  content : Ring.content fifo.buffer (2 ^ k : Nat) (fifo.out.toNat % 2 ^ k : Nat) l.length = l

variable {fifo : Kfifo} {k : Nat} {l : List UInt8} {len : UInt32} {buffer : Nat → UInt8}

theorem offset_toNat (hsize : fifo.size.toNat = 2 ^ k) (counter : UInt32) :
    (fifo.offset counter).toNat = counter.toNat % 2 ^ k := by
  have hpos : (fifo.size - 1).toNat = 2 ^ k - 1 := by
    have := Nat.two_pow_pos k
    rw [UInt32.toNat_sub_of_le, hsize]
    · rfl
    · rw [UInt32.le_iff_toNat_le, hsize]
      exact this
  rw [Kfifo.offset, UInt32.toNat_and, hpos, Nat.and_two_pow_sub_one_eq_mod]

/-- A counter further on, which may have wrapped, is at the place further on. -/
theorem counter_add (hk : k ≤ 32) (counter n : UInt32) (hn : n.toNat ≤ 2 ^ k) :
    (((counter + n).toNat % 2 ^ k : Nat) : Int) = wrap (2 ^ k : Nat) ((counter.toNat % 2 ^ k : Nat) + (n.toNat : Nat)) := by
  have hdvd : 2 ^ k ∣ 2 ^ 32 := Nat.pow_dvd_pow 2 hk
  have hlt := Nat.mod_lt counter.toNat (Nat.two_pow_pos k)
  rw [UInt32.toNat_add, Nat.mod_mod_of_dvd _ hdvd, ← Nat.mod_add_mod]
  generalize counter.toNat % 2 ^ k = r at *
  rcases Nat.lt_or_ge (r + n.toNat) (2 ^ k) with h | h
  · rw [Nat.mod_eq_of_lt h, wrap_of_lt (by omega)]
    omega
  · rw [Nat.mod_eq_sub_mod h, Nat.mod_eq_of_lt (by omega), wrap_of_le (by omega)]
    omega

theorem kfifoMin_toNat (a b : UInt32) : (kfifoMin a b).toNat = min a.toNat b.toNat := by
  unfold kfifoMin
  split_ifs with h
  · exact (Nat.min_eq_left (Nat.le_of_lt (UInt32.lt_iff_toNat_lt.1 h))).symm
  · exact (Nat.min_eq_right (Nat.le_of_not_lt fun h' => h (UInt32.lt_iff_toNat_lt.2 h'))).symm

/-- The lengths of the two copies from a place on. -/
theorem parts (hsize : fifo.size.toNat = 2 ^ k) (counter len : UInt32) :
    (fifo.offset counter).toNat = counter.toNat % 2 ^ k ∧
      (kfifoMin len (fifo.size - fifo.offset counter)).toNat = min len.toNat (2 ^ k - counter.toNat % 2 ^ k) ∧
      (len - kfifoMin len (fifo.size - fifo.offset counter)).toNat =
        len.toNat - min len.toNat (2 ^ k - counter.toNat % 2 ^ k) := by
  have hlt := Nat.mod_lt counter.toNat (Nat.two_pow_pos k)
  have hoffset := offset_toNat hsize counter
  have hend : (fifo.size - fifo.offset counter).toNat = 2 ^ k - counter.toNat % 2 ^ k := by
    rw [UInt32.toNat_sub_of_le, hsize, hoffset]
    rw [UInt32.le_iff_toNat_le, hsize, hoffset]
    omega
  have hmin := kfifoMin_toNat len (fifo.size - fifo.offset counter)
  rw [hend] at hmin
  refine ⟨hoffset, hmin, ?_⟩
  rw [UInt32.toNat_sub_of_le, hmin]
  rw [UInt32.le_iff_toNat_le, hmin]
  exact Nat.min_le_left _ _

theorem counter_sub_add (a b n : UInt32) : a - (b + n) = a - b - n := by
  apply UInt32.toNat_inj.1
  have ha := a.toNat_lt
  have hb := b.toNat_lt
  have hn := n.toNat_lt
  simp only [UInt32.toNat_sub, UInt32.toNat_add]
  omega

theorem counter_add_sub (a b n : UInt32) : a + n - b = a - b + n := by
  apply UInt32.toNat_inj.1
  have ha := a.toNat_lt
  have hb := b.toNat_lt
  have hn := n.toNat_lt
  simp only [UInt32.toNat_sub, UInt32.toNat_add]
  omega

/-- Two copies from a place on, the second one from the start, are those of a ring. -/
theorem spans_eq_content (m : Int → UInt8) (hsize : fifo.size.toNat = 2 ^ k) (counter : UInt32) :
    span m (fifo.offset counter).toNat (kfifoMin len (fifo.size - fifo.offset counter)).toNat ++
        span m 0 (len - kfifoMin len (fifo.size - fifo.offset counter)).toNat =
      Ring.content m (2 ^ k : Nat) (counter.toNat % 2 ^ k : Nat) len.toNat := by
  have hlt := Nat.mod_lt counter.toNat (Nat.two_pow_pos k)
  obtain ⟨hoffset, hmin, hrest⟩ := parts hsize counter len
  rw [hoffset, hmin, hrest]
  rcases Nat.le_total len.toNat (2 ^ k - counter.toNat % 2 ^ k) with h | h
  · rw [Nat.min_eq_left h, Nat.sub_self, content_eq_span (by omega)]
    exact List.append_nil _
  · rw [Nat.min_eq_right h, content_eq_spans (by omega) h]

/-- A stretch written in two copies, the second one from the start, is written to a ring. -/
theorem stores_written (m : Int → UInt8) (hsize : fifo.size.toNat = 2 ^ k) (counter : UInt32) (hlen : len.toNat ≤ 2 ^ k) :
    Written m
      (store (store m (fifo.offset counter).toNat (read buffer 0 (kfifoMin len (fifo.size - fifo.offset counter)).toNat)) 0
        (read buffer (kfifoMin len (fifo.size - fifo.offset counter)).toNat
          (len - kfifoMin len (fifo.size - fifo.offset counter)).toNat))
      (2 ^ k : Nat) (counter.toNat % 2 ^ k : Nat) (read buffer 0 len.toNat) := by
  have hlt := Nat.mod_lt counter.toNat (Nat.two_pow_pos k)
  obtain ⟨hoffset, hmin, hrest⟩ := parts hsize counter len
  rw [hoffset, hmin, hrest]
  rcases Nat.le_total len.toNat (2 ^ k - counter.toNat % 2 ^ k) with h | h
  · have hnone : ∀ m : Int → UInt8, store m 0 (read buffer len.toNat 0) = m := by
      intro m
      funext i
      exact store_other (by simp; omega)
    rw [Nat.min_eq_left h, Nat.sub_self, hnone]
    exact written_store (by rw [length_read]; omega)
  · have hsplit : read buffer 0 len.toNat = read buffer 0 (2 ^ k - counter.toNat % 2 ^ k) ++
        read buffer (2 ^ k - counter.toNat % 2 ^ k) (len.toNat - (2 ^ k - counter.toNat % 2 ^ k)) := by
      have hadd := read_add buffer 0 (2 ^ k - counter.toNat % 2 ^ k) (len.toNat - (2 ^ k - counter.toNat % 2 ^ k))
      rwa [Nat.add_sub_cancel' h, Nat.zero_add] at hadd
    have hwritten := @written_stores _ m (2 ^ k : Nat) (counter.toNat % 2 ^ k : Nat) (read buffer 0 len.toNat)
      (2 ^ k - counter.toNat % 2 ^ k) (by omega) (by rwa [length_read]) (by rw [length_read]; omega)
    rw [Nat.min_eq_right h]
    rwa [hsplit, List.take_left' (length_read ..), List.drop_left' (length_read ..), ← hsplit] at hwritten

/-! ## What the operations do to the list -/

section Holds

variable (h : fifo.Holds k l)
include h

theorem Kfifo.Holds.k_le : k ≤ 32 := by
  have hlt := fifo.size.toNat_lt
  rw [h.size] at hlt
  exact Nat.le_of_lt ((Nat.pow_lt_pow_iff_right Nat.one_lt_two).1 hlt)

theorem Kfifo.Holds.free : (fifo.size - fifo.in_ + fifo.out).toNat = 2 ^ k - l.length := by
  have hsize := h.size
  have hlen := h.len
  have hfits := h.fits
  have hlt := fifo.size.toNat_lt
  rw [kfifoLen, UInt32.toNat_sub] at hlen
  rw [UInt32.toNat_add, UInt32.toNat_sub]
  have hin := fifo.in_.toNat_lt
  have hout := fifo.out.toNat_lt
  omega

/-- The place for the next byte. -/
theorem Kfifo.Holds.in_eq :
    ((fifo.in_.toNat % 2 ^ k : Nat) : Int) = wrap (2 ^ k : Nat) ((fifo.out.toNat % 2 ^ k : Nat) + (l.length : Nat)) := by
  have hsum : fifo.in_ = fifo.out + kfifoLen fifo := by
    rw [kfifoLen, UInt32.add_comm, UInt32.sub_add_cancel]
  rw [hsum, counter_add h.k_le _ _ (by rw [h.len]; exact h.fits), h.len]

/-- A put appends as many bytes as there is room for. -/
theorem kfifoPut_spec (buffer : Nat → UInt8) (len : UInt32) :
    (kfifoPut fifo buffer len).1.toNat = min len.toNat (2 ^ k - l.length) ∧
      (kfifoPut fifo buffer len).2.Holds k (l ++ read buffer 0 (kfifoPut fifo buffer len).1.toNat) := by
  have hlen : (kfifoPut fifo buffer len).1.toNat = min len.toNat (2 ^ k - l.length) := by
    rw [kfifoPut, kfifoMin_toNat, h.free]
  refine ⟨hlen, ?_⟩
  have hfits := h.fits
  have hroom : (kfifoPut fifo buffer len).1.toNat ≤ 2 ^ k - l.length := hlen ▸ Nat.min_le_right _ _
  have hwritten := @stores_written _ _ _ buffer fifo.buffer h.size fifo.in_ (Nat.le_trans hroom (Nat.sub_le _ _))
  rw [h.in_eq] at hwritten
  refine ⟨h.size, ?_, ?_, ?_⟩
  · have hstored : kfifoLen (kfifoPut fifo buffer len).2 = kfifoLen fifo + (kfifoPut fifo buffer len).1 := by
      rw [kfifoLen, kfifoLen, kfifoPut, counter_add_sub]
    have hlt := fifo.size.toNat_lt
    rw [hstored, UInt32.toNat_add, h.len, List.length_append, length_read]
    rw [h.size] at hlt
    omega
  · rw [List.length_append, length_read]
    omega
  · have hcontent := content_written hwritten (by have := Nat.mod_lt fifo.out.toNat (Nat.two_pow_pos k); omega)
      (by rw [length_read]; omega)
    rw [List.length_append]
    exact hcontent.trans (congrArg (· ++ _) h.content)

/-- Copying `n` bytes from the place of `out` on. -/
theorem Kfifo.Holds.copied {n : UInt32} (hn : n.toNat ≤ l.length) :
    span fifo.buffer (fifo.offset fifo.out).toNat (kfifoMin n (fifo.size - fifo.offset fifo.out)).toNat ++
      span fifo.buffer 0 (n - kfifoMin n (fifo.size - fifo.offset fifo.out)).toNat = l.take n.toNat := by
  rw [spans_eq_content fifo.buffer h.size, ← take_content _ _ _ _ hn, h.content]

/-- A get takes as many of the first bytes as there are. -/
theorem kfifoGet_spec (len : UInt32) :
    (kfifoGet fifo len).1.toNat = min len.toNat l.length ∧ (kfifoGet fifo len).2.1 = l.take len.toNat ∧
      (kfifoGet fifo len).2.2.Holds k (l.drop len.toNat) := by
  have hlen : (kfifoGet fifo len).1.toNat = min len.toNat l.length := by
    rw [← h.len, kfifoGet, kfifoMin_toNat, kfifoLen]
  have hle : (kfifoGet fifo len).1.toNat ≤ l.length := hlen ▸ Nat.min_le_right _ _
  have hdrop : l.drop len.toNat = l.drop (kfifoGet fifo len).1.toNat := by
    rcases Nat.le_total len.toNat l.length with hl | hl
    · rw [hlen, Nat.min_eq_left hl]
    · rw [hlen, Nat.min_eq_right hl, List.drop_of_length_le hl, List.drop_length]
  refine ⟨hlen, ?_, ?_⟩
  · have htake : l.take len.toNat = l.take (kfifoGet fifo len).1.toNat := by
      rw [hlen, List.take_eq_take_min]
    rw [htake]
    exact h.copied hle
  have hfits := h.fits
  have hlt := Nat.mod_lt fifo.out.toNat (Nat.two_pow_pos k)
  rw [hdrop]
  refine ⟨h.size, ?_, ?_, ?_⟩
  · have hstored : kfifoLen (kfifoGet fifo len).2.2 = kfifoLen fifo - (kfifoGet fifo len).1 := by
      rw [kfifoLen, kfifoLen, kfifoGet, counter_sub_add]
    rw [hstored, UInt32.toNat_sub_of_le _ _ (UInt32.le_iff_toNat_le.2 (h.len.symm ▸ hle)), h.len, List.length_drop]
  · rw [List.length_drop]
    omega
  · have hcontent := drop_content fifo.buffer (2 ^ k : Nat) (fifo.out.toNat % 2 ^ k : Nat) l.length
      (kfifoGet fifo len).1.toNat (by omega)
    rw [h.content, ← counter_add h.k_le _ _ (Nat.le_trans hle hfits)] at hcontent
    rw [List.length_drop]
    exact hcontent.symm

/-- A peek copies the first bytes, all or none of them. -/
theorem kfifoPeekToBuf_spec (len : UInt32) :
    kfifoPeekToBuf fifo len = if len.toNat ≤ l.length then (len, l.take len.toNat) else (0, []) := by
  have hmin : kfifoMin len (fifo.in_ - fifo.out) = if len.toNat ≤ l.length then len else fifo.in_ - fifo.out := by
    have hlen := h.len
    rw [kfifoLen] at hlen
    apply UInt32.toNat_inj.1
    rw [kfifoMin_toNat, hlen]
    split_ifs with hle
    · exact Nat.min_eq_left hle
    · rw [hlen]
      exact Nat.min_eq_right (Nat.le_of_not_le hle)
  unfold kfifoPeekToBuf kfifoPeek
  dsimp only
  by_cases hle : len.toNat ≤ l.length
  · rw [if_pos hle] at hmin
    rw [hmin, if_neg (UInt32.lt_irrefl len), if_pos hle, ← h.copied hle]
    generalize hfirst : kfifoMin len (fifo.size - fifo.offset fifo.out) = first
    by_cases hsecond : first < len
    · rw [if_pos hsecond]
      dsimp only
      rw [if_pos (by rw [UInt32.add_comm, UInt32.sub_add_cancel])]
      rfl
    · have hall : first = len := by
        rw [← hfirst, kfifoMin] at hsecond ⊢
        split_ifs at hsecond ⊢ with hlt
        · rfl
        · apply UInt32.toNat_inj.1
          rw [UInt32.lt_iff_toNat_lt] at hsecond hlt
          omega
      rw [if_neg hsecond, hall]
      dsimp only
      rw [if_pos (UInt32.add_zero len).symm, UInt32.sub_self]
      rfl
  · rw [if_neg hle] at hmin
    have hlt : fifo.in_ - fifo.out < len := by
      have hlen := h.len
      rw [kfifoLen] at hlen
      rw [UInt32.lt_iff_toNat_lt, hlen]
      exact Nat.lt_of_not_le hle
    have hne : len ≠ 0 + 0 := by
      rintro rfl
      exact hle (Nat.zero_le _)
    rw [hmin, if_pos hlt, if_neg hle, if_neg hne]

end Holds

/-! ## Any sequence of calls -/

namespace Kfifo

/-- `kfifo_put`, `kfifo_peek_to_buf` and `kfifo_get`. -/
inductive Call where
  | put (buffer : Nat → UInt8) (len : UInt32)
  | peek (len : UInt32)
  | get (len : UInt32)

/-- A FIFO, and the bytes that it has accepted and delivered. -/
structure History where
  fifo : Kfifo
  accepted : List UInt8
  delivered : List UInt8

/-- A FIFO of any buffer whose counters are both `counter`. -/
def start (size counter : UInt32) (buffer : Int → UInt8) : History := ⟨⟨buffer, size, counter, counter⟩, [], []⟩

def History.call (s : History) : Call → History
  | .put buffer len =>
    let (n, fifo) := kfifoPut s.fifo buffer len
    { s with fifo, accepted := s.accepted ++ read buffer 0 n.toNat }
  | .peek _ => s
  | .get len =>
    let (_, bytes, fifo) := kfifoGet s.fifo len
    { s with fifo, delivered := s.delivered ++ bytes }

/-- What has been delivered is a prefix of what was accepted, the rest is stored and
fits, a put accepts what there is room for, a get delivers what there is of the rest,
and a peek shows the same bytes. -/
structure History.Lawful (s : History) : Prop where
  order : s.delivered <+: s.accepted
  stored : (kfifoLen s.fifo).toNat = s.accepted.length - s.delivered.length
  fits : (kfifoLen s.fifo).toNat ≤ s.fifo.size.toNat
  put : ∀ buffer len, (kfifoPut s.fifo buffer len).1.toNat = min len.toNat (s.fifo.size.toNat - (kfifoLen s.fifo).toNat)
  get : ∀ len, (kfifoGet s.fifo len).1.toNat = min len.toNat (kfifoLen s.fifo).toNat ∧
    (kfifoGet s.fifo len).2.1 = (s.accepted.drop s.delivered.length).take len.toNat
  peek : ∀ len, kfifoPeekToBuf s.fifo len =
    if len.toNat ≤ (kfifoLen s.fifo).toNat then (len, (s.accepted.drop s.delivered.length).take len.toNat) else (0, [])

/-- The FIFO holds what has been accepted and not been delivered. -/
def History.Inv (k : Nat) (s : History) : Prop := ∃ l, s.accepted = s.delivered ++ l ∧ s.fifo.Holds k l

theorem History.Inv.lawful {s : History} (h : s.Inv k) : s.Lawful := by
  obtain ⟨l, hl, hh⟩ := h
  have hrest : s.accepted.drop s.delivered.length = l := by rw [hl, List.drop_left]
  refine ⟨⟨l, hl.symm⟩, ?_, ?_, ?_, ?_, ?_⟩
  · rw [hh.len, hl, List.length_append, Nat.add_sub_cancel_left]
  · rw [hh.len, hh.size]
    exact hh.fits
  · intro buffer len
    rw [hh.len, hh.size]
    exact (kfifoPut_spec hh buffer len).1
  · intro len
    obtain ⟨hn, hbytes, -⟩ := kfifoGet_spec hh len
    rw [hh.len, hrest]
    exact ⟨hn, hbytes⟩
  · intro len
    rw [hh.len, hrest]
    exact kfifoPeekToBuf_spec hh len

theorem History.Inv.call {s : History} (h : s.Inv k) (c : Call) : (s.call c).Inv k := by
  obtain ⟨l, hl, hh⟩ := h
  cases c with
  | put buffer len =>
    refine ⟨_, ?_, (kfifoPut_spec hh buffer len).2⟩
    show s.accepted ++ _ = _
    rw [hl, List.append_assoc]
    rfl
  | peek len => exact ⟨l, hl, hh⟩
  | get len =>
    obtain ⟨-, hbytes, hnext⟩ := kfifoGet_spec hh len
    refine ⟨_, ?_, hnext⟩
    show s.accepted = s.delivered ++ (kfifoGet s.fifo len).2.1 ++ _
    rw [hbytes, List.append_assoc, List.take_append_drop, hl]

theorem start_inv {size : UInt32} (hsize : size.toNat = 2 ^ k) (counter : UInt32) (buffer : Int → UInt8) :
    (start size counter buffer).Inv k := by
  refine ⟨[], rfl, hsize, ?_, Nat.zero_le _, rfl⟩
  show (counter - counter).toNat = 0
  rw [UInt32.sub_self]
  rfl

/-- After any sequence of calls, with counters that may have wrapped. -/
theorem kfifo_lawful {k : Nat} {size : UInt32} (hsize : size.toNat = 2 ^ k) (counter : UInt32) (buffer : Int → UInt8)
    (calls : List Call) : (calls.foldl History.call (start size counter buffer)).Lawful := by
  suffices h : ∀ s : History, s.Inv k → (calls.foldl History.call s).Inv k from
    (h _ (start_inv hsize counter buffer)).lawful
  intro s hs
  induction calls generalizing s with
  | nil => exact hs
  | cons c calls ih => exact ih _ (hs.call c)

/-- Three bytes into a buffer of four, over the end of the counters. -/
theorem kfifo_lawful_wraps :
    (([.put (fun j => UInt8.ofNat j) 3, .get 2, .put (fun j => UInt8.ofNat (3 + j)) 9] : List Call).foldl History.call
      (start 4 0xFFFFFFFE fun _ => 0)).Lawful :=
  kfifo_lawful (k := 2) rfl 0xFFFFFFFE (fun _ => 0) _

end Kfifo

end Utils
