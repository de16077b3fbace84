import Nodeflow.Latent.Condition
import Nodeflow.Scope

/-!
# The rest of a run

A run that comes to a latent node is cut there.  What is left of it is kept as a
continuation until the node's condition is met.
-/

namespace Nodeflow

inductive TraceEvent where
  | entered (node : Nat)
  | printed (line : String)
  | suspended (event : String) (node : Nat)
  | resumed (event : String) (node : Nat)
  deriving DecidableEq, Repr

/-- What a run carries from node to node. -/
structure Frame where
  event : String
  scope : LocalScope
  steps : Nat

def Frame.start (event : String) (args : EventArgs) : Frame :=
  ⟨event, .forEvent event args, 0⟩

structure Continuation where
  className : String
  frame : Frame
  node : Nat
  /-- The output its result leaves by; without one the run ends on resuming. -/
  slot : Option Nat
  condition : Condition

end Nodeflow
