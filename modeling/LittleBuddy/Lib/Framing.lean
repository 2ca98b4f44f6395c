import Mathlib.Data.List.Infix
import Mathlib.Tactic.Common
/-!
# Messages in a byte stream

Messages are encoded one behind the other, and a reader has seen the stream up
to some position. What it has seen is a number of whole messages and the
beginning of the next one.
-/

namespace Framing

variable {μ β : Type} (encode : μ → List β)

/-- The number of bytes behind the last message border, `n` bytes into the stream. -/
def pending : List μ → Nat → Nat
  | [], n => n
  | m :: ms, n => if (encode m).length ≤ n then pending ms (n - (encode m).length) else n

/-- `rest` is the beginning of the first message of `todo`, without its end. -/
def Begun (todo : List μ) (rest : List β) : Prop :=
  rest <+: todo.flatMap encode ∧ ∀ m, todo.head? = some m → rest.length < (encode m).length

variable {encode} {done todo : List μ} {rest : List β}

theorem pending_done (r : Nat) :
    pending encode (done ++ todo) ((done.flatMap encode).length + r) = pending encode todo r := by
  induction done with
  | nil => simp
  | cons m done ih =>
    have hle : (encode m).length ≤ (encode m).length + ((done.flatMap encode).length + r) := Nat.le_add_right ..
    rw [List.cons_append, pending, List.flatMap_cons, List.length_append, Nat.add_assoc, if_pos hle,
      Nat.add_sub_cancel_left, ih]

theorem Begun.pending (h : Begun encode todo rest) : pending encode todo rest.length = rest.length := by
  cases todo with
  | nil => rfl
  | cons m todo => exact if_neg (Nat.not_le.2 (h.2 m rfl))

theorem Begun.nil (h : Begun encode ([] : List μ) rest) : rest = [] := List.prefix_nil.1 h.1

theorem begun_nil (hpos : ∀ m, encode m ≠ []) : Begun encode todo [] :=
  ⟨List.nil_prefix, fun m _ => List.length_pos_of_ne_nil (hpos m)⟩

/-- What has been seen of a stream: whole messages and the beginning of the next. -/
theorem seen_split (ms : List μ) {seen : List β} (h : seen <+: ms.flatMap encode) :
    ∃ done todo rest, ms = done ++ todo ∧ seen = done.flatMap encode ++ rest ∧ Begun encode todo rest := by
  induction ms generalizing seen with
  | nil => exact ⟨[], [], seen, rfl, rfl, h, by simp⟩
  | cons m ms ih =>
    by_cases hlen : seen.length < (encode m).length
    · refine ⟨[], m :: ms, seen, rfl, rfl, h, ?_⟩
      rintro _ ⟨⟩
      exact hlen
    · -- the first message is whole, the rest of the stream is split in the same way
      rw [List.flatMap_cons] at h
      have hm : encode m <+: seen :=
        List.prefix_of_prefix_length_le (List.prefix_append ..) h (Nat.le_of_not_lt hlen)
      obtain ⟨seen, rfl⟩ := hm
      obtain ⟨done, todo, rest, rfl, rfl, hbegun⟩ := ih ((List.prefix_append_right_inj _).1 h)
      exact ⟨m :: done, todo, rest, rfl, by simp, hbegun⟩

end Framing
