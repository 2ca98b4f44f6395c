import Mathlib.Data.List.Induction
import Mathlib.Tactic.Common
/-!
# Values that are saved and restored

A value is set to another one, with the one before kept in a single saved
place, and restored from there. The value comes back if each setting is
followed by a restoration before the next one.
-/

namespace SaveRestore

variable {α : Type}

/-- The value, and the saved one. -/
structure Cell (α : Type) where
  current : α
  saved : α

inductive Op (α : Type) where
  | enter (value : α)
  | restore
  deriving DecidableEq

def Cell.apply (c : Cell α) : Op α → Cell α
  | .enter value => ⟨value, c.current⟩
  | .restore => ⟨c.saved, c.saved⟩

def Cell.applyAll (c : Cell α) (ops : List (Op α)) : Cell α := ops.foldl Cell.apply c

/-- A restoration was the last operation. -/
def settled (ops : List (Op α)) : Bool :=
  match ops.getLast? with
  | some .restore => true
  | some (.enter _) | none => false

/-- Each setting is followed by a restoration at once; other restorations only come behind a restoration. -/
def paired : Bool → List (Op α) → Bool
  | _, [] => true
  | settled, .restore :: ops => settled && paired true ops
  | _, .enter _ :: .restore :: ops => paired true ops
  | _, [.enter _] => false
  | _, .enter _ :: .enter _ :: _ => false

variable {c : Cell α} {ops ops' : List (Op α)} {b : Bool}

theorem applyAll_append (c : Cell α) (ops ops' : List (Op α)) : c.applyAll (ops ++ ops') = (c.applyAll ops).applyAll ops' :=
  List.foldl_append

theorem applyAll_snoc (c : Cell α) (ops : List (Op α)) (op : Op α) : c.applyAll (ops ++ [op]) = (c.applyAll ops).apply op :=
  applyAll_append c ops [op]

/-- Behind a restoration the saved value is the current one. -/
theorem saved_of_settled (h : settled ops = true) : (c.applyAll ops).saved = (c.applyAll ops).current := by
  induction ops using List.reverseRecOn with
  | nil => cases h
  | append_singleton ops op _ =>
    rw [settled, List.getLast?_concat] at h
    cases op with
    | restore =>
      rw [applyAll_snoc]
      rfl
    | enter value => cases h

/-- Paired operations bring the value back. -/
theorem applyAll_current (h : paired b ops = true) (hb : b = true → c.saved = c.current) :
    (c.applyAll ops).current = c.current := by
  induction b, ops using paired.induct generalizing c with
  | case1 => rfl
  | case2 b ops ih =>
    rw [paired, Bool.and_eq_true] at h
    exact (ih h.2 fun _ => rfl).trans (hb h.1)
  | case3 b value ops ih =>
    rw [paired] at h
    exact ih h fun _ => rfl
  | case4 b value => cases h
  | case5 b value value' ops => cases h

end SaveRestore
