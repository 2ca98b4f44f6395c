import LittleBuddy.Lib.NorMem
/-!
# Pending operations on one sector

A deferred write queue keeps, for each sector, the operations not yet executed,
newest first. A pending program carries an image of the whole sector, of which
it programs one range; the rest of the image is padding that a later write may
widen the range over. `Pads` is what makes that harmless: outside the range
the image has every bit that the sector has once the older operations are done.
-/

namespace NorMem

/-- A pending operation on a sector. -/
inductive SecOp where
  | erase
  /-- Programs the bytes `offs .. offs + len` of an image of the sector. -/
  | program (offs len : Nat) (bytes : Nat → UInt8)

/-- What the operation makes of the byte `x` at offset `j`. -/
def SecOp.effect (o : SecOp) (j : Nat) (x : UInt8) : UInt8 :=
  match o with
  | .erase => 0xff
  | .program offs len bytes => if InRange offs len j then x &&& bytes j else x

/-- The byte at offset `j` when all of `ops`, newest first, have been executed. -/
def replay (ops : List SecOp) (j : Nat) (x : UInt8) : UInt8 := ops.foldr (fun o x => o.effect j x) x

/-- The padding of every pending image of `size` bytes has the bits of the sector below it. -/
def Pads (size : Nat) (flash : Nat → UInt8) : List SecOp → Prop
  | [] => True
  | .erase :: older => Pads size flash older
  | .program offs len bytes :: older =>
    (∀ j < size, ¬ InRange offs len j → replay older j (flash j) &&& bytes j = replay older j (flash j)) ∧
      Pads size flash older

@[simp] theorem replay_nil (j : Nat) (x : UInt8) : replay [] j x = x := rfl

@[simp] theorem replay_cons (o : SecOp) (ops : List SecOp) (j : Nat) (x : UInt8) :
    replay (o :: ops) j x = o.effect j (replay ops j x) := rfl

@[simp] theorem effect_erase (j : Nat) (x : UInt8) : SecOp.erase.effect j x = 0xff := rfl

theorem effect_program_of {offs len j : Nat} {bytes : Nat → UInt8} (h : InRange offs len j) (x : UInt8) :
    (SecOp.program offs len bytes).effect j x = x &&& bytes j := if_pos h

theorem effect_program_other {offs len j : Nat} {bytes : Nat → UInt8} (h : ¬ InRange offs len j) (x : UInt8) :
    (SecOp.program offs len bytes).effect j x = x := if_neg h

theorem replay_append (ops ops' : List SecOp) (j : Nat) (x : UInt8) :
    replay (ops ++ ops') j x = replay ops j (replay ops' j x) := by
  induction ops with
  | nil => rfl
  | cons o ops ih => simp only [List.cons_append, replay_cons, ih]

/-! ## Executing the oldest operation -/

theorem pads_of_append {size : Nat} {flash : Nat → UInt8} {ops : List SecOp} {tail : List SecOp}
    (h : Pads size flash (ops ++ tail)) : Pads size flash tail := by
  induction ops with
  | nil => exact h
  | cons o ops ih =>
    cases o with
    | erase => exact ih h
    | program => exact ih h.2

/-- Only what the older operations come to matters to the newer ones. -/
theorem pads_congr {size : Nat} {flash flash' : Nat → UInt8} {ops tail tail' : List SecOp}
    (h : ∀ j < size, replay tail' j (flash' j) = replay tail j (flash j)) (ht : Pads size flash' tail')
    (hp : Pads size flash (ops ++ tail)) : Pads size flash' (ops ++ tail') := by
  induction ops with
  | nil => exact ht
  | cons o ops ih =>
    cases o with
    | erase => exact ih hp
    | program offs len bytes =>
      refine ⟨fun j hj hr => ?_, ih hp.2⟩
      have hold := hp.1 j hj hr
      change replay (ops ++ tail) j (flash j) &&& bytes j = replay (ops ++ tail) j (flash j) at hold
      change replay (ops ++ tail') j (flash' j) &&& bytes j = replay (ops ++ tail') j (flash' j)
      rwa [replay_append, h j hj, ← replay_append]

/-- Executing the oldest operation keeps the content and the padding. -/
theorem replay_finish (ops : List SecOp) (o : SecOp) (j : Nat) (x : UInt8) :
    replay ops j (o.effect j x) = replay (ops ++ [o]) j x := by
  simp [replay_append]

theorem pads_finish {size : Nat} {flash flash' : Nat → UInt8} {ops : List SecOp} {o : SecOp}
    (h : Pads size flash (ops ++ [o])) (hf : ∀ j < size, flash' j = o.effect j (flash j)) : Pads size flash' ops := by
  have hp : Pads size flash' (ops ++ []) := pads_congr (fun j hj => by rw [replay_nil, hf j hj]; rfl) trivial h
  simpa using hp

/-- The memory `flash'` left by a stopped operation: it can still be completed,
and a program has changed its range only. -/
structure Resumable (size : Nat) (o : SecOp) (flash flash' : Nat → UInt8) : Prop where
  effect : ∀ j < size, o.effect j (flash' j) = o.effect j (flash j)
  frame : ∀ offs len bytes, o = .program offs len bytes → ∀ j < size, ¬ InRange offs len j → flash' j = flash j

theorem replay_suspend {size : Nat} {o : SecOp} {flash flash' : Nat → UInt8} (h : Resumable size o flash flash')
    (ops : List SecOp) {j : Nat} (hj : j < size) :
    replay (ops ++ [o]) j (flash' j) = replay (ops ++ [o]) j (flash j) := by
  simp [replay_append, h.effect j hj]

theorem pads_suspend {size : Nat} {o : SecOp} {flash flash' : Nat → UInt8} (h : Resumable size o flash flash')
    {ops : List SecOp} (hp : Pads size flash (ops ++ [o])) : Pads size flash' (ops ++ [o]) := by
  refine pads_congr (fun j hj => ?_) ?_ hp
  · exact h.effect j hj
  · have ho : Pads size flash [o] := pads_of_append hp
    cases o with
    | erase => trivial
    | program offs len bytes =>
      refine ⟨fun j hj hr => ?_, trivial⟩
      rw [replay_nil, h.frame offs len bytes rfl j hj hr]
      exact ho.1 j hj hr

/-! ## Adding an operation -/

/-- What programming `len` bytes of `data` at `offs` makes of the sector. -/
def programByte (offs len : Nat) (data : Nat → UInt8) (j : Nat) (x : UInt8) : UInt8 :=
  if InRange offs len j then x &&& data (j - offs) else x

/-- The new data only clears bits of the sector's content. -/
def ClearsAll (offs len : Nat) (data content : Nat → UInt8) : Prop :=
  ∀ j, InRange offs len j → Clears (content j) (data (j - offs))

/-- A new image over `init` programs the data. -/
theorem effect_new (init : Nat → UInt8) (offs len : Nat) (data : Nat → UInt8) (j : Nat) (x : UInt8) :
    (SecOp.program offs len (memcpy init offs data len)).effect j x = programByte offs len data j x := by
  unfold programByte
  split
  · rename_i h; rw [effect_program_of h, memcpy_of h]
  · rename_i h; rw [effect_program_other h]

theorem pads_new {size : Nat} {flash init : Nat → UInt8} {ops : List SecOp} (hp : Pads size flash ops) (offs len : Nat)
    (data : Nat → UInt8) (hinit : ∀ j < size, replay ops j (flash j) &&& init j = replay ops j (flash j)) :
    Pads size flash (.program offs len (memcpy init offs data len) :: ops) := by
  refine ⟨fun j hj hr => ?_, hp⟩
  rw [memcpy_other hr]
  exact hinit j hj

/-- An image that starts as the flash pads an older program that is half done. -/
theorem pads_flash (flash : Nat → UInt8) (offs len : Nat) (bytes : Nat → UInt8) (j : Nat) :
    replay [.program offs len bytes] j (flash j) &&& flash j = replay [.program offs len bytes] j (flash j) := by
  rw [replay_cons, replay_nil]
  by_cases h : InRange offs len j
  · rw [effect_program_of h, UInt8.and_comm, and_absorb]
  · rw [effect_program_other h, UInt8.and_self]

/-- The smallest range around two ranges. -/
def hullStart (o₁ o₂ : Nat) : Nat := if o₁ ≤ o₂ then o₁ else o₂
def hullEnd (e₁ e₂ : Nat) : Nat := if e₁ ≥ e₂ then e₁ else e₂

/-- A pending program widened over new data. -/
def SecOp.widen (o₁ l₁ : Nat) (bytes : Nat → UInt8) (o₂ l₂ : Nat) (data : Nat → UInt8) : SecOp :=
  .program (hullStart o₁ o₂) (hullEnd (o₁ + l₁) (o₂ + l₂) - hullStart o₁ o₂) (memcpy bytes o₂ data l₂)

theorem hull_left {o₁ l₁ o₂ l₂ j : Nat} (h : InRange o₁ l₁ j) :
    InRange (hullStart o₁ o₂) (hullEnd (o₁ + l₁) (o₂ + l₂) - hullStart o₁ o₂) j := by
  unfold InRange hullStart hullEnd at *
  split <;> split <;> omega

theorem hull_right {o₁ l₁ o₂ l₂ j : Nat} (h : InRange o₂ l₂ j) :
    InRange (hullStart o₁ o₂) (hullEnd (o₁ + l₁) (o₂ + l₂) - hullStart o₁ o₂) j := by
  unfold InRange hullStart hullEnd at *
  split <;> split <;> omega

/-- Widening a pending program does what programming the data after it does. -/
theorem effect_widen {o₁ l₁ o₂ l₂ j : Nat} {bytes data base : Nat → UInt8}
    (hpad : ¬ InRange o₁ l₁ j → base j &&& bytes j = base j)
    (hclr : ClearsAll o₂ l₂ data fun j => (SecOp.program o₁ l₁ bytes).effect j (base j)) :
    (SecOp.widen o₁ l₁ bytes o₂ l₂ data).effect j (base j) =
      programByte o₂ l₂ data j ((SecOp.program o₁ l₁ bytes).effect j (base j)) := by
  unfold SecOp.widen programByte
  by_cases h₂ : InRange o₂ l₂ j
  · rw [effect_program_of (hull_right h₂), memcpy_of h₂, if_pos h₂]
    have hc : Clears ((SecOp.program o₁ l₁ bytes).effect j (base j)) (data (j - o₂)) := hclr j h₂
    by_cases h₁ : InRange o₁ l₁ j
    · rw [effect_program_of h₁] at hc ⊢
      exact hc.replace
    · rw [effect_program_other h₁]
  · rw [if_neg h₂]
    by_cases h₁ : InRange o₁ l₁ j
    · rw [effect_program_of (hull_left h₁), memcpy_other h₂, effect_program_of h₁]
    · rw [effect_program_other h₁]
      by_cases hh : InRange (hullStart o₁ o₂) (hullEnd (o₁ + l₁) (o₂ + l₂) - hullStart o₁ o₂) j
      · rw [effect_program_of hh, memcpy_other h₂, hpad h₁]
      · rw [effect_program_other hh]

theorem pads_widen {size : Nat} {flash : Nat → UInt8} {ops : List SecOp} {o₁ l₁ o₂ l₂ : Nat} {bytes data : Nat → UInt8}
    (hp : Pads size flash (.program o₁ l₁ bytes :: ops)) : Pads size flash (.widen o₁ l₁ bytes o₂ l₂ data :: ops) := by
  refine ⟨fun j hj hr => ?_, hp.2⟩
  rw [memcpy_other fun h => hr (hull_right h)]
  exact hp.1 j hj fun h => hr (hull_left h)

/-! ## Reading the newest operation -/

/-- The sector's content as the newest operation, or else the flash, shows it. -/
def newest (ops : List SecOp) (flash : Nat → UInt8) (j : Nat) : UInt8 :=
  match ops with
  | [] => flash j
  | .erase :: _ => 0xff
  | .program _ _ bytes :: _ => bytes j

theorem newest_head {o : SecOp} {ops ops' : List SecOp} {flash flash' : Nat → UInt8} {j : Nat} :
    newest (o :: ops) flash j = newest (o :: ops') flash' j := by
  cases o <;> rfl

/-- An image that was the content stays the content when data that only clears
bits is copied into it. -/
theorem memcpy_content {content image : Nat → UInt8} {offs len j : Nat} {data : Nat → UInt8}
    (hi : image j = content j) (hc : ClearsAll offs len data content) :
    memcpy image offs data len j = programByte offs len data j (content j) := by
  unfold programByte
  split
  · rename_i h; rw [memcpy_of h]; exact (hc j h).symm
  · rename_i h; rw [memcpy_other h, hi]

end NorMem
