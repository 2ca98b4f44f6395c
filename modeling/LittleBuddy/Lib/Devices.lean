import Mathlib.Tactic.Common
/-!
# Devices that are opened and started

A device is opened when it is closed, started when it is open, stopped when it has
started and closed when it has stopped. `replay` follows a list of operations.
-/

namespace Devices

inductive Mode where
  | closed
  | opened
  | started
  deriving DecidableEq

inductive Op where
  | opens
  | starts
  | stops
  | closes
  deriving DecidableEq

/-- The mode behind an operation, if the device allows it. -/
def Op.apply : Op → Mode → Option Mode
  | .opens, .closed => some .opened
  | .starts, .opened => some .started
  | .stops, .started => some .opened
  | .closes, .opened => some .closed
  | .opens, .opened | .opens, .started | .starts, .closed | .starts, .started | .stops, .closed | .stops, .opened
  | .closes, .closed | .closes, .started => none

/-- The mode behind a list of operations, if the device allows each of them. -/
def replay : List Op → Mode → Option Mode
  | [], m => some m
  | op :: ops, m => (op.apply m).bind (replay ops)

theorem replay_append (ops ops' : List Op) (m : Mode) : replay (ops ++ ops') m = (replay ops m).bind (replay ops') := by
  induction ops generalizing m with
  | nil => rfl
  | cons op ops ih =>
    rw [List.cons_append, replay, replay, Option.bind_assoc]
    exact congrArg _ (funext ih)

end Devices
