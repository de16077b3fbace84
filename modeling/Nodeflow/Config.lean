import Nodeflow.Data.Basic

/-!
# Limits of a runtime
-/

namespace Nodeflow

structure RuntimeConfig where
  /-- Nodes one run of an event may execute, over all the ticks it spans. -/
  stepBudget : Nat
  /-- Operations one evaluation may take; zero lifts the limit. -/
  maxOperations : Nat
  maxDepth : Nat
  traceNodes : Bool
  deriving DecidableEq, Repr

namespace RuntimeConfig

def default : RuntimeConfig := ⟨10000, 10000, 64, true⟩

instance : Inhabited RuntimeConfig := ⟨default⟩

def ofData? (d : Data) : Option RuntimeConfig := do
  match ← d.record? ["step_budget", "max_expr_operations", "max_expr_depth", "trace_nodes"] with
  | [budget, operations, depth, trace] =>
    let budget ← Data.fieldOr default.stepBudget Data.index? budget
    let operations ← Data.fieldOr default.maxOperations Data.index? operations
    let depth ← Data.fieldOr default.maxDepth Data.index? depth
    let trace ← Data.fieldOr default.traceNodes Data.bool? trace
    some ⟨budget, operations, depth, trace⟩
  | _ => none

end RuntimeConfig

end Nodeflow
