import Nodeflow.Expr.Evaluation
import Nodeflow.Object

/-!
# Programs

A graph whose capabilities have been looked up, whose parameters are bound, and whose
links have become tables: for every node, the node each output leads to.  Nodes that
cannot run are inert, and a run that reaches one ends there.
-/

namespace Nodeflow

inductive BoundParam where
  | literal (value : Value)
  | expression (e : Expression)

structure ReadyNode where
  capability : UInt32
  params : List BoundParam
  successors : List (Option Nat)

inductive ProgramNode where
  | ready (node : ReadyNode)
  | inert

namespace ProgramNode

def ready? : ProgramNode → Option ReadyNode
  | .ready node => some node
  | .inert => none

def isReady (n : ProgramNode) : Bool :=
  n.ready?.isSome

def targets : ProgramNode → List Nat
  | .ready node => node.successors.filterMap id
  | .inert => []

end ProgramNode

structure Program where
  nodes : List ProgramNode
  start : Option Nat
  /-- Whether the start names a node that is not there; then nothing ever runs. -/
  inert : Bool

namespace Program

def node? (p : Program) (index : Nat) : Option ReadyNode :=
  p.nodes[index]?.bind ProgramNode.ready?

def entry? (p : Program) : Option Nat :=
  if p.inert then none else p.start.filter fun start => (p.node? start).isSome

def successor? (p : Program) (index slot : Nat) : Option Nat :=
  (p.node? index).bind fun node => node.successors[slot]?.join

end Program

/-- What a graph definition is built into. -/
structure Blueprint where
  events : NameMap Program
  vars : Variables

def Blueprint.defines (b : Blueprint) (event : String) : Bool :=
  b.events.contains event

structure BoundGraph where
  className : String
  owner : ObjectId
  blueprint : Blueprint
  vars : Variables

namespace BoundGraph

def bind (className : String) (owner : ObjectId) (blueprint : Blueprint) : BoundGraph :=
  ⟨className, owner, blueprint, blueprint.vars⟩

def defines (g : BoundGraph) (event : String) : Bool :=
  g.blueprint.defines event

def entry? (g : BoundGraph) (event : String) : Option Nat :=
  (g.blueprint.events.find? event).bind Program.entry?

def successor? (g : BoundGraph) (event : String) (index slot : Nat) : Option Nat :=
  (g.blueprint.events.find? event).bind fun program => program.successor? index slot

end BoundGraph

end Nodeflow
