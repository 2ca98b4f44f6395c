import Mathlib.Data.List.Basic
import Mathlib.Tactic.Common
/-!
# Rings of cells

A ring of `size` cells in a memory `m`, addressed from 0 on. Its content is a
list: `len` cells from `read` on, where the cell behind the last one is the
first. Indices are integers below `2 * size`, as index arithmetic makes them,
and wrap once.
-/

namespace Ring

variable {α : Type}

/-- The cell of index `i`. -/
def wrap (size i : Int) : Int := if i < size then i else i - size

theorem wrap_of_lt {size i : Int} (h : i < size) : wrap size i = i := if_pos h

theorem wrap_of_le {size i : Int} (h : size ≤ i) : wrap size i = i - size := if_neg (Int.not_lt.2 h)

/-- Going on from a wrapped index. -/
theorem wrap_add {size i : Int} {j : Nat} (h : i + j < 2 * size) : wrap size (wrap size i + j) = wrap size (i + j) := by
  unfold wrap
  split_ifs <;> omega

/-- Two indices less than a turn apart are different cells. -/
theorem wrap_ne {size i j : Int} (hij : i < j) (h : j < i + size) : wrap size i ≠ wrap size j := by
  unfold wrap
  split_ifs <;> omega

/-- The `len` cells from `read` on. -/
def content (m : Int → α) (size read : Int) (len : Nat) : List α :=
  (List.range len).map fun j => m (wrap size (read + (j : Nat)))

variable {m m' : Int → α} {size read : Int} {len : Nat}

@[simp] theorem length_content : (content m size read len).length = len := by simp [content]

theorem getElem_content {j : Nat} (h : j < (content m size read len).length) :
    (content m size read len)[j] = m (wrap size (read + j)) := by
  simp [content]

theorem content_congr (h : ∀ j : Nat, j < len → m' (wrap size (read + j)) = m (wrap size (read + j))) :
    content m' size read len = content m size read len := by
  apply List.map_congr_left
  intro j hj
  exact h j (List.mem_range.1 hj)

/-- The first cell, and the others. -/
theorem content_cons (hread : 0 ≤ read ∧ read < size) (hlen : len < size) :
    content m size read (len + 1) = m read :: content m size (wrap size (read + 1)) len := by
  unfold content
  rw [List.range_succ_eq_map, List.map_cons, List.map_map]
  refine congr_arg₂ _ ?_ ?_
  · simp [wrap_of_lt hread.2]
  · apply List.map_congr_left
    intro j hj
    have := List.mem_range.1 hj
    simp only [Function.comp]
    rw [wrap_add (by omega)]
    congr 2
    omega

theorem take_content (m : Int → α) (size read : Int) (n : Nat) (h : n ≤ len) : (content m size read len).take n = content m size read n := by
  unfold content
  rw [← List.map_take, List.take_range, Nat.min_eq_left h]

theorem drop_content (m : Int → α) (size read : Int) (len n : Nat) (h : read + len ≤ 2 * size) :
    (content m size read len).drop n = content m size (wrap size (read + n)) (len - n) := by
  apply List.ext_getElem
  · simp
  · intro j h₁ h₂
    rw [List.getElem_drop, getElem_content, getElem_content]
    have hj : j < len - n := by simpa using h₂
    rw [wrap_add (by omega)]
    congr 2
    omega

theorem content_append (m : Int → α) (size read : Int) (k n : Nat) (h : read + (k + n) ≤ 2 * size) :
    content m size read (k + n) = content m size read k ++ content m size (wrap size (read + k)) n := by
  have hdrop := drop_content m size read (k + n) k (by omega)
  rw [Nat.add_sub_cancel_left] at hdrop
  rw [← hdrop, ← take_content m size read k (Nat.le_add_right k n), List.take_append_drop]

/-- The `n` cells from `a` on, without wrapping. -/
def span (m : Int → α) (a : Int) (n : Nat) : List α := (List.range n).map fun j => m (a + (j : Nat))

/-- A content that does not reach the end of the ring is one span, -/
theorem content_eq_span (h : read + len ≤ size) : content m size read len = span m read len := by
  apply List.map_congr_left
  intro j hj
  have := List.mem_range.1 hj
  rw [wrap_of_lt (by omega)]

/-- and else two. -/
theorem content_eq_spans {n : Nat} (hn : read + n = size) (h : n ≤ len) :
    content m size read len = span m read n ++ span m 0 (len - n) := by
  obtain ⟨k, rfl⟩ := Nat.exists_eq_add_of_le h
  unfold content span
  rw [List.range_add, List.map_append, List.map_map, Nat.add_sub_cancel_left]
  congr 1
  · apply List.map_congr_left
    intro j hj
    have := List.mem_range.1 hj
    rw [wrap_of_lt (by omega)]
  · apply List.map_congr_left
    intro j _
    simp only [Function.comp]
    rw [wrap_of_le (by omega)]
    congr 1
    omega

/-- The memory with `l` written from `a` on. -/
def store (m : Int → α) (a : Int) (l : List α) : Int → α := fun i =>
  if h : a ≤ i ∧ i < a + l.length then l.get ⟨(i - a).toNat, by omega⟩ else m i

theorem store_of {a : Int} {l : List α} {j : Nat} (h : j < l.length) : store m a l (a + j) = l[j] := by
  unfold store
  have hj : (a + (j : Int) - a).toNat = j := by omega
  rw [dif_pos (by omega)]
  simp only [hj, List.get_eq_getElem]

theorem store_other {a i : Int} {l : List α} (h : i < a ∨ a + l.length ≤ i) : store m a l i = m i := by
  unfold store
  rw [dif_neg (by omega)]

/-- The ring `m'` is `m` with `l` written from the cell `w` on. -/
structure Written (m m' : Int → α) (size w : Int) (l : List α) : Prop where
  new : ∀ (j : Nat) (h : j < l.length), m' (wrap size (w + j)) = l[j]
  old : ∀ i, (∀ j : Nat, j < l.length → i ≠ wrap size (w + j)) → m' i = m i

theorem written_store {w : Int} {l : List α} (h : w + l.length ≤ size) : Written m (store m w l) size w l where
  new j hj := by rw [wrap_of_lt (by omega), store_of hj]
  old i hi := by
    refine store_other ?_
    by_contra hc
    refine hi (i - w).toNat (by omega) ?_
    rw [wrap_of_lt (by omega)]
    omega

/-- A write that reaches the end of the ring goes on at its start. -/
theorem written_stores {w : Int} {l : List α} {t : Nat} (ht : w + t = size) (hl : t ≤ l.length)
    (hsize : l.length ≤ size) : Written m (store (store m w (l.take t)) 0 (l.drop t)) size w l where
  new j hj := by
    by_cases hjt : j < t
    · rw [wrap_of_lt (by omega), store_other (.inr (by simp; omega)), store_of (by simp; omega), List.getElem_take]
    · have hcell : w + (j : Int) - size = 0 + ((j - t : Nat) : Int) := by omega
      rw [wrap_of_le (by omega), hcell, store_of (by simp; omega), List.getElem_drop]
      congr 1
      omega
  old i hi := by
    rw [store_other, store_other]
    · by_contra hc
      simp only [List.length_take] at hc
      refine hi (i - w).toNat (by omega) ?_
      rw [wrap_of_lt (by omega)]
      omega
    · by_contra hc
      simp only [List.length_drop] at hc
      refine hi (i.toNat + t) (by omega) ?_
      rw [wrap_of_le (by omega)]
      omega

/-- What is written behind the content is appended to it. -/
theorem content_written {l : List α} (h : Written m m' size (wrap size (read + len)) l) (hread : 0 ≤ read ∧ read ≤ size)
    (hfit : len + l.length ≤ size) : content m' size read (len + l.length) = content m size read len ++ l := by
  have hnew : ∀ j : Nat, j < l.length → wrap size (wrap size (read + len) + j) = wrap size (read + len + j) := by
    intro j hj
    unfold wrap
    split_ifs <;> omega
  apply List.ext_getElem
  · simp
  · intro j h₁ h₂
    rw [getElem_content]
    by_cases hj : j < len
    · rw [List.getElem_append_left (by simpa using hj), getElem_content]
      refine h.old _ fun k hk => ?_
      rw [hnew k hk]
      exact wrap_ne (by omega) (by omega)
    · rw [List.getElem_append_right (by simpa using hj)]
      simp only [length_content] at h₁ ⊢
      have hlt : j - len < l.length := by omega
      rw [← h.new (j - len) hlt, hnew _ hlt]
      congr 2
      omega

/-- A cell written in front of the content is prepended to it. -/
theorem content_front (m : Int → α) (len : Nat) (b : α) (hread : 0 ≤ read ∧ read < size) (hlen : len < size) :
    content (store m read [b]) size read (len + 1) = b :: content m size (wrap size (read + 1)) len := by
  rw [content_cons hread hlen]
  refine congr_arg₂ _ ?_ (content_congr fun j hj => ?_)
  · simpa using store_of (m := m) (a := read) (l := [b]) (j := 0) (by simp)
  · refine store_other ?_
    have hne : wrap size read ≠ wrap size (wrap size (read + 1) + j) := by
      have := @wrap_ne size read (read + 1 + j) (by omega) (by omega)
      intro he
      apply this
      rw [he]
      unfold wrap
      split_ifs <;> omega
    rw [wrap_of_lt hread.2] at hne
    simp only [List.length_singleton]
    omega

/-- All of `l` was written to the ring, up to the cell before `w`. What is left of
it, behind cells of before, is the content from `w` on. -/
def Last (m : Int → α) (size : Nat) (w : Int) (l : List α) : Prop :=
  ∃ first : List α, first.length = size ∧ content m size w size = (first ++ l).drop l.length

theorem last_nil (m : Int → α) (size : Nat) (w : Int) : Last m size w [] :=
  ⟨content m size w size, length_content, (List.append_nil _).symm⟩

/-- The cells that end a turn of the ring are the last ones up to where they end. -/
theorem last_of_content (m : Int → α) {size : Nat} (hread : 0 ≤ read ∧ read < size) (hlen : len ≤ size) :
    Last m size (wrap size (read + len)) (content m size read len) := by
  have hturn := content_append m size (wrap size (read + len)) (size - len) len (by unfold wrap; split_ifs <;> omega)
  have hback : wrap size (wrap size (read + len) + (size - len : Nat)) = read := by
    unfold wrap
    split_ifs <;> omega
  rw [hback, Nat.sub_add_cancel hlen] at hturn
  refine ⟨content m size read len ++ content m size (wrap size (read + len)) (size - len), ?_, ?_⟩
  · rw [List.length_append, length_content, length_content, Nat.add_sub_cancel' hlen]
  · rw [hturn, List.append_assoc, List.drop_left]

/-- A write goes over the oldest cells. -/
theorem Last.written {size : Nat} {w : Int} {l new : List α} (h : Last m size w l) (hw : Written m m' size w new)
    (hbound : 0 ≤ w ∧ w < size) (hnew : new.length ≤ size) : Last m' size (wrap size (w + new.length)) (l ++ new) := by
  obtain ⟨first, hfirst, hcontent⟩ := h
  refine ⟨first, hfirst, ?_⟩
  have hrest := drop_content m size w size new.length (by omega)
  have hstart : wrap size (wrap size (w + new.length) + (size - new.length : Nat)) = w := by
    unfold wrap
    split_ifs <;> omega
  have hread : 0 ≤ wrap size (w + new.length) ∧ wrap size (w + new.length) ≤ size := by
    unfold wrap
    split_ifs <;> omega
  have happend : content m' size (wrap size (w + new.length)) (size - new.length + new.length) =
      content m size (wrap size (w + new.length)) (size - new.length) ++ new :=
    content_written (hstart.symm ▸ hw) hread (by omega)
  rw [Nat.sub_add_cancel hnew] at happend
  have hlen : l.length + new.length ≤ (first ++ l).length := by
    rw [List.length_append]
    omega
  rw [happend, ← hrest, hcontent, List.drop_drop, List.length_append, ← List.append_assoc,
    List.drop_append_of_le_length hlen]

/-- The cells up to `w` are the end of what was written. -/
theorem Last.content_eq {size len : Nat} {read w : Int} {l : List α} (h : Last m size w l) (hbound : 0 ≤ w ∧ w < size)
    (hread : 0 ≤ read ∧ read < size) (hwrap : wrap size (read + len) = w) (hsize : len ≤ size) (hlen : len ≤ l.length) :
    content m size read len = l.drop (l.length - len) := by
  obtain ⟨first, hfirst, hcontent⟩ := h
  have hrest := drop_content m size w size (size - len) (by omega)
  have hstart : wrap size (w + (size - len : Nat)) = read := by
    subst hwrap
    unfold wrap
    split_ifs <;> omega
  rw [hstart, Nat.sub_sub_self hsize, hcontent, List.drop_drop] at hrest
  have hsplit : l.length + (size - len) = first.length + (l.length - len) := by omega
  rw [← hrest, hsplit, List.drop_length_add_append]

end Ring
