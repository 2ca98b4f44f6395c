import Mathlib.Data.List.Basic
import Mathlib.Tactic.Common
/-!
# Stream transducers

A machine that is offered a piece of input and some room for output, takes a part
of the one and fills a part of the other. `Transduces` is what makes it a stream
transducer: a call takes all its input or fills all its room, and what comes out is
given by what went in, however both are cut.
-/

namespace Transducer

variable {σ α β : Type}

/-- What a call leaves: the state, how much of the input was taken, and the output. -/
structure Reply (σ β : Type) where
  state : σ
  taken : Nat
  out : List β

/-- A call: the state, the input offered and the room for output. -/
abbrev Machine (σ α β : Type) := σ → List α → Nat → Reply σ β

/-- The state `s` is reached from `s₀` by calls that took `x` and put out `y`, in all. -/
inductive Total (M : Machine σ α β) (s₀ : σ) : σ → List α → List β → Prop
  | start : Total M s₀ s₀ [] []
  | call {s x y} (h : Total M s₀ s x y) (inp : List α) (room : Nat) :
      Total M s₀ (M s inp room).state (x ++ inp.take (M s inp room).taken) (y ++ (M s inp room).out)

/-- The machine puts out `R x` for the input `x`. -/
structure Transduces (M : Machine σ α β) (s₀ : σ) (R : List α → List β) : Prop where
  mono : ∀ {x x'}, x <+: x' → R x <+: R x'
  taken_le : ∀ {s x y}, Total M s₀ s x y → ∀ inp room, (M s inp room).taken ≤ inp.length
  out_le : ∀ {s x y}, Total M s₀ s x y → ∀ inp room, (M s inp room).out.length ≤ room
  /-- All the input is taken, or all the room is filled. -/
  all_or_full : ∀ {s x y}, Total M s₀ s x y → ∀ inp room,
    (M s inp room).taken = inp.length ∨ (M s inp room).out.length = room
  output : ∀ {s x y}, Total M s₀ s x y → y <+: R x
  /-- Nothing is kept back while there is room. -/
  output_all : ∀ {s x y}, Total M s₀ s x y → ∀ inp room, (M s inp room).out.length < room →
    y ++ (M s inp room).out = R (x ++ inp)

variable {M : Machine σ α β} {s₀ s : σ} {R : List α → List β} {x z inp : List α} {y : List β} {room n : Nat}

namespace Transduces

/-- With input left, the call has filled its room. -/
theorem full_of_input (h : Transduces M s₀ R) (hs : Total M s₀ s x y) (inp : List α) (room : Nat)
    (hinp : (M s inp room).taken < inp.length) :
    (M s inp room).out.length = room := by
  rcases h.all_or_full hs inp room with htaken | hfull
  · omega
  · exact hfull

/-- The output is a beginning of what any longer input gives. -/
theorem output_of_begins (h : Transduces M s₀ R) (hs : Total M s₀ s x y) (hx : x <+: z) : y <+: R z :=
  (h.output hs).trans (h.mono hx)

/-- The output of `n` items is fixed by any input that gives as many, taken or not. -/
theorem output_eq_take (h : Transduces M s₀ R) (hs : Total M s₀ s x y) (hx : x <+: z ∨ z <+: x)
    (hlen : y.length = n) (hn : n ≤ (R z).length) : y = (R z).take n := by
  rcases hx with hx | hx
  · rw [List.prefix_iff_eq_take.mp (h.output_of_begins hs hx), hlen]
  · have hz := List.prefix_iff_eq_take.mp (h.mono hx)
    have hy := List.prefix_iff_eq_take.mp (h.output hs)
    rw [hlen] at hy
    rw [hz, List.take_take, Nat.min_eq_left hn, ← hy]

/-- While an input that gives enough is not taken in full, a call with room left
leaves less than that. -/
theorem length_of_room (h : Transduces M s₀ R) (hs : Total M s₀ s x y) (inp : List α) (room : Nat)
    (hroom : (M s inp room).out.length < room)
    (hn : y.length + room ≤ (R z).length) : ¬z <+: x ++ inp := by
  intro hz
  have hle := (h.mono hz).length_le
  rw [← h.output_all hs inp room hroom, List.length_append] at hle
  omega

end Transduces

end Transducer
