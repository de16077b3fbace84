import Nodeflow.Value

/-!
# Graph definitions

What an author draws: for every event a list of nodes and the links between them, the
node each event starts from, and the first values of the graph's variables.  Nothing
here is checked; a link or a start may name a node that is not there.
-/

namespace Nodeflow

inductive Param where
  | expression (source : String)
  | literal (value : Value)
  deriving DecidableEq, Inhabited

structure Position where
  x : Float32
  y : Float32
  deriving DecidableEq

def Position.origin : Position := ⟨singleOf false 0, singleOf false 0⟩

instance : Inhabited Position := ⟨Position.origin⟩

/-- A call of the capability named `function`; the position only matters to an editor. -/
structure Node where
  function : String
  params : List Param
  position : Position
  deriving DecidableEq, Inhabited

/-- Output `slot` of node `source` drives node `destination`. -/
structure Link where
  source : Nat
  destination : Nat
  slot : Nat
  deriving DecidableEq, Repr, Inhabited

structure EventGraph where
  nodes : List Node
  links : List Link
  deriving DecidableEq, Inhabited

def EventGraph.empty : EventGraph := ⟨[], []⟩

structure GraphDefinition where
  events : NameMap EventGraph
  starts : NameMap (Option Nat)
  vars : Variables
  deriving DecidableEq, Inhabited

namespace GraphDefinition

def empty : GraphDefinition := ⟨∅, ∅, ∅⟩

def defines (d : GraphDefinition) (event : String) : Bool :=
  d.events.contains event

def graph (d : GraphDefinition) (event : String) : EventGraph :=
  (d.events.find? event).getD .empty

def setGraph (d : GraphDefinition) (event : String) (g : EventGraph) : GraphDefinition :=
  { d with events := d.events.insert event g }

def declareEvent (d : GraphDefinition) (event : String) : GraphDefinition :=
  d.setGraph event (d.graph event)

def addNode (d : GraphDefinition) (event : String) (node : Node) : GraphDefinition × Nat :=
  let g := d.graph event
  (d.setGraph event { g with nodes := g.nodes ++ [node] }, g.nodes.length)

def addLink (d : GraphDefinition) (event : String) (link : Link) : GraphDefinition :=
  let g := d.graph event
  d.setGraph event { g with links := g.links ++ [link] }

def setStart (d : GraphDefinition) (event : String) (node : Option Nat) : GraphDefinition :=
  { d with starts := d.starts.insert event node }

def setVariable (d : GraphDefinition) (name : String) (value : Value) : GraphDefinition :=
  { d with vars := d.vars.insert name value }

/-- The start node of an event; an entry without a node is no start. -/
def start? (d : GraphDefinition) (event : String) : Option Nat :=
  (d.starts.find? event).join

end GraphDefinition

end Nodeflow
