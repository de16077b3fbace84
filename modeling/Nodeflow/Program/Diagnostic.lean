import Nodeflow.ParamType

/-!
# Diagnostics

Building a program never fails.  What is wrong with a graph is reported, and the part
concerned does nothing when the program runs.
-/

namespace Nodeflow

inductive DiagnosticReason where
  | unknownCapability (name : String)
  | linkOutOfRange (node : Nat)
  | slotOutOfRange (slot available : Nat)
  | slotAlreadyLinked (slot : Nat)
  | startNodeOutOfRange (node : Nat)
  | startWithoutGraph (node : Nat)
  | paramCountMismatch (expected actual : Nat)
  | literalTypeMismatch (param : String) (why : TypeMismatch)
  /-- The text bound to the parameter is no expression.  What its reader says of it is not kept. -/
  | expressionParse (param : String)
  | unreachableThroughInert
  deriving DecidableEq, Repr

def DiagnosticReason.message : DiagnosticReason → String
  | .unknownCapability name => "unknown capability `" ++ name ++ "`"
  | .linkOutOfRange node =>
    "link refers to node " ++ toString node ++ " outside the node list"
  | .slotOutOfRange slot available =>
    "link uses output slot " ++ toString slot ++ " but the node has " ++ toString available
  | .slotAlreadyLinked slot =>
    "output slot " ++ toString slot ++ " already drives another node"
  | .startNodeOutOfRange node =>
    "start node " ++ toString node ++ " is outside the node list"
  | .startWithoutGraph node =>
    "start node " ++ toString node ++ " is set for an event with no graph"
  | .paramCountMismatch expected actual =>
    "expected " ++ toString expected ++ " parameters, got " ++ toString actual
  | .literalTypeMismatch param why => "parameter `" ++ param ++ "`: " ++ why.message
  | .expressionParse param => "parameter `" ++ param ++ "`: parse error"
  | .unreachableThroughInert => "only reachable through inert nodes"

structure Diagnostic where
  event : String
  node : Option Nat
  reason : DiagnosticReason
  deriving DecidableEq, Repr

def Diagnostic.message (d : Diagnostic) : String :=
  d.event ++ ": " ++ d.reason.message ++ " (node=" ++ nodeText d.node ++ ")"
where
  nodeText : Option Nat → String
    | some node => "Some(" ++ toString node ++ ")"
    | none => "None"

end Nodeflow
