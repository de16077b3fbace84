import Nodeflow.Value

/-!
# Conditions of waiting

A waiting chain is polled once per tick, and every poll moves its condition on by the
time since the poll before.
-/

namespace Nodeflow

inductive Condition where
  | delay (remaining : Float32)
  /-- Met at the poll that uses up the remaining frames, and at once if none remain. -/
  | frames (remaining : Nat)
  | nextTick
  | custom (memory : Value) (step : Value → Float32 → Value × Bool)

/-- A poll after `dt` seconds: the condition from then on, and whether it is met. -/
def Condition.poll (c : Condition) (dt : Float32) : Condition × Bool :=
  match c with
  | .delay remaining =>
    let remaining := remaining - dt
    (.delay remaining, remaining ≤ 0)
  | .frames remaining =>
    let remaining := remaining - 1
    (.frames remaining, remaining == 0)
  | .nextTick => (.nextTick, true)
  | .custom memory step =>
    let (memory, done) := step memory dt
    (.custom memory step, done)

end Nodeflow
