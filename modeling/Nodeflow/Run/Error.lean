import Nodeflow.Capability.Error
import Nodeflow.Expr.Error

/-!
# Why a run is aborted
-/

namespace Nodeflow

inductive ExecError where
  | parameter (node : Nat) (capability param : String) (source : ExprError)
  | capability (node : Nat) (capability : String) (source : CapabilityError)
  | illegalSuspend (node : Nat) (capability : String)
  | stepBudgetExceeded (budget : Nat)
  deriving DecidableEq

def ExecError.message : ExecError → String
  | .parameter node name param source =>
    place node name ++ ": parameter `" ++ param ++ "`: " ++ source.message
  | .capability node name source => place node name ++ ": " ++ source.message
  | .illegalSuspend node name => place node name ++ " suspended but is not latent"
  | .stepBudgetExceeded budget =>
    "step budget of " ++ toString budget ++ " exhausted, exec flow is probably cyclic"
where
  place (node : Nat) (name : String) : String :=
    "node " ++ toString node ++ " (`" ++ name ++ "`)"

end Nodeflow
