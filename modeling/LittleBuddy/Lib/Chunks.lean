import Mathlib.Data.List.Basic
/-!
# Streams in chunks

What a function that keeps a state does to a stream that is handed to it chunk
by chunk, and when the chunks do not show in the result: then the `k`-th element
of the stream becomes what its number says.
-/

namespace Chunks

variable {α β γ σ : Type} {f : Nat → α → β} {k : Nat}

/-- The elements of a stream from number `k` on, each mapped by its number. -/
def mapFrom (f : Nat → α → β) (k : Nat) (l : List α) : List β := l.mapIdx fun j => f (k + j)

@[simp] theorem mapFrom_nil : mapFrom f k [] = [] := rfl

@[simp] theorem length_mapFrom {l : List α} : (mapFrom f k l).length = l.length := List.length_mapIdx

theorem mapFrom_mapFrom {g : Nat → β → γ} {l : List α} :
    mapFrom g k (mapFrom f k l) = mapFrom (fun i x => g i (f i x)) k l := by
  simp only [mapFrom, List.mapIdx_mapIdx]
  rfl

theorem mapFrom_append (l l' : List α) : mapFrom f k (l ++ l') = mapFrom f k l ++ mapFrom f (k + l.length) l' := by
  simp only [mapFrom, List.mapIdx_append, Nat.add_comm _ l.length, ← Nat.add_assoc]

/-- A chunk and the rest of the stream. -/
theorem append_eq_mapFrom_iff {l l' : List α} {out out' : List β} (hlen : out.length = l.length) :
    out ++ out' = mapFrom f k (l ++ l') ↔ out = mapFrom f k l ∧ out' = mapFrom f (k + l.length) l' := by
  rw [mapFrom_append]
  exact ⟨fun h => List.append_inj h (by simp [hlen]), fun h => by rw [h.1, h.2]⟩

/-- Two ways of mapping a chunk agree if they do at every element. -/
theorem map_mapFrom_eq_iff {l : List α} {g : Nat → α → γ} {h : γ → β} {i : Nat} :
    (mapFrom g i l).map h = mapFrom f k l ↔ ∀ j x, l[j]? = some x → h (g (i + j) x) = f (k + j) x := by
  rw [List.ext_getElem?_iff]
  simp only [mapFrom, List.getElem?_map, List.getElem?_mapIdx, Option.map_map]
  constructor
  · intro heq j x hx
    simpa [hx] using heq j
  · intro hall j
    cases hx : l[j]? with
    | none => rfl
    | some x => simpa using hall j x hx

theorem mapFrom_eq_iff {l : List α} {g : Nat → α → β} {i : Nat} :
    mapFrom g i l = mapFrom f k l ↔ ∀ j x, l[j]? = some x → g (i + j) x = f (k + j) x := by
  simpa using map_mapFrom_eq_iff (h := id) (g := g) (f := f) (l := l) (i := i) (k := k)

theorem mapFrom_eq_self {l : List α} {g : Nat → α → α} (h : ∀ j x, l[j]? = some x → g (k + j) x = x) :
    mapFrom g k l = l := by
  have hid : mapFrom (fun _ x => x) k l = l := List.ext_getElem? fun j => by simp [mapFrom]
  exact (mapFrom_eq_iff.2 h).trans hid

/-! ## Successive calls -/

/-- What the calls give, one behind the other, and the state they leave. -/
def calls (call : σ → List α → List β × σ) : σ → List (List α) → List β × σ
  | s, [] => ([], s)
  | s, l :: ls => ((call s l).1 ++ (calls call (call s l).2 ls).1, (calls call (call s l).2 ls).2)

variable {call : σ → List α → List β × σ}

/-- If a call in the state for number `k` maps its chunk by the numbers from `k`
on, the calls do not depend on the chunks. -/
theorem calls_eq_mapFrom (call : σ → List α → List α × σ) (f : Nat → α → α) (k : Nat) (I : Nat → σ → Prop)
    (hcall : ∀ k s l, I k s → (call s l).1 = mapFrom f k l ∧ I (k + l.length) (call s l).2) {s : σ} (hs : I k s)
    (ls : List (List α)) :
    (calls call s ls).1 = mapFrom f k ls.flatten ∧ I (k + ls.flatten.length) (calls call s ls).2 := by
  induction ls generalizing s k with
  | nil => exact ⟨rfl, hs⟩
  | cons l ls ih =>
    obtain ⟨hout, hs'⟩ := hcall k s l hs
    obtain ⟨hrest, hend⟩ := ih _ hs'
    refine ⟨?_, by simpa [calls, Nat.add_assoc] using hend⟩
    rw [List.flatten_cons, mapFrom_append, ← hout, ← hrest]
    rfl

end Chunks
