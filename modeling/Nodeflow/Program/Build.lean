import Nodeflow.Graph.Definition
import Nodeflow.Program.Diagnostic
import Nodeflow.Program.Reach
import Nodeflow.Registry

/-!
# Building programs

An event is built in three steps: every node is bound to its capability, the links are
placed one after the other, and the nodes that can only be entered through inert nodes
are made inert as well.  Each step reports what it could not do.
-/

namespace Nodeflow

/-! ## Nodes -/

/-- Binds a parameter.  A text bound to a parameter of another type is read as an
expression. -/
def bindParam (config : RuntimeConfig) (spec : ParamSpec) (param : Param) :
    Except DiagnosticReason BoundParam :=
  match param with
  | .expression source => parsed source
  | .literal (.text source) => if spec.type = .text then coerced (.text source) else parsed source
  | .literal value => coerced value
where
  parsed (source : String) : Except DiagnosticReason BoundParam :=
    match Expression.parse config source with
    | .ok e => .ok (.expression e)
    | .error _ => .error (.expressionParse spec.name)
  coerced (value : Value) : Except DiagnosticReason BoundParam :=
    match spec.type.coerce value with
    | .ok v => .ok (.literal v)
    | .error why => .error (.literalTypeMismatch spec.name why)

def bindParams (config : RuntimeConfig) :
    List ParamSpec → List Param → Except DiagnosticReason (List BoundParam)
  | spec :: specs, param :: params => do
    let bound ← bindParam config spec param
    let rest ← bindParams config specs params
    pure (bound :: rest)
  | _, _ => pure []

def buildNode (registry : Registry) (config : RuntimeConfig) (node : Node) :
    Except DiagnosticReason ReadyNode :=
  match registry.lookup? node.function with
  | none => .error (.unknownCapability node.function)
  | some id =>
    match registry.get? id with
    | none => .error (.unknownCapability node.function)
    | some capability =>
      let d := capability.descriptor
      if node.params.length = d.params.length then do
        let params ← bindParams config d.params node.params
        pure ⟨id, params, List.replicate d.outputCount none⟩
      else .error (.paramCountMismatch d.params.length node.params.length)

def builtNode : Except DiagnosticReason ReadyNode → ProgramNode
  | .ok node => .ready node
  | .error _ => .inert

def nodeDiagnostics (event : String) :
    Nat → List (Except DiagnosticReason ReadyNode) → List Diagnostic
  | _, [] => []
  | index, .ok _ :: rest => nodeDiagnostics event (index + 1) rest
  | index, .error reason :: rest =>
    ⟨event, some index, reason⟩ :: nodeDiagnostics event (index + 1) rest

/-! ## Links -/

structure Wiring where
  nodes : List ProgramNode
  fromInert : List Nat
  diagnostics : List Diagnostic

namespace Wiring

def report (w : Wiring) (event : String) (node : Option Nat) (reason : DiagnosticReason) :
    Wiring :=
  { w with diagnostics := w.diagnostics ++ [⟨event, node, reason⟩] }

/-- Places a link.  The first link of an output counts; one that leaves an inert node
is only remembered. -/
def place (event : String) (w : Wiring) (link : Link) : Wiring :=
  match w.nodes[link.source]? with
  | none => w.report event none (.linkOutOfRange link.source)
  | some source =>
    if w.nodes.length ≤ link.destination then
      w.report event (some link.source) (.linkOutOfRange link.destination)
    else
      match source with
      | .inert => { w with fromInert := w.fromInert ++ [link.destination] }
      | .ready node =>
        match node.successors[link.slot]? with
        | none =>
          w.report event (some link.source) (.slotOutOfRange link.slot node.successors.length)
        | some (some _) => w.report event (some link.source) (.slotAlreadyLinked link.slot)
        | some none =>
          let successors := node.successors.set link.slot (some link.destination)
          { w with nodes := w.nodes.set link.source (.ready { node with successors }) }

end Wiring

def wire (registry : Registry) (config : RuntimeConfig) (event : String) (graph : EventGraph) :
    Wiring :=
  let built := graph.nodes.map (buildNode registry config)
  graph.links.foldl (Wiring.place event)
    ⟨built.map builtNode, [], nodeDiagnostics event 0 built⟩

/-! ## Stranded nodes -/

def roots (nodes : List ProgramNode) (fromInert : List Nat) : List Nat :=
  let linked := nodes.flatMap ProgramNode.targets ++ fromInert
  (List.range nodes.length).filter fun i =>
    !linked.contains i && (nodes[i]?.any ProgramNode.isReady)

/-- The ready nodes that links from inert nodes lead to, directly or not, while neither
the start nor a root does. -/
def stranded (nodes : List ProgramNode) (fromInert : List Nat) (start : Option Nat) : List Nat :=
  let live := reachable nodes (start.toList ++ roots nodes fromInert)
  let behind := reachable nodes fromInert
  (List.range nodes.length).filter fun i =>
    behind.contains i && !live.contains i && (nodes[i]?.any ProgramNode.isReady)

def makeInert (nodes : List ProgramNode) (indices : List Nat) : List ProgramNode :=
  nodes.mapIdx fun i node => if indices.contains i then .inert else node

/-! ## Events and definitions -/

def startDiagnostics (event : String) (graph : EventGraph) : Option Nat → List Diagnostic
  | some start =>
    if graph.nodes.length ≤ start then [⟨event, some start, .startNodeOutOfRange start⟩] else []
  | none => []

def Program.starting (nodes : List ProgramNode) (start : Option Nat) : Program :=
  let inert := start.any fun s => nodes.length ≤ s
  ⟨nodes, if inert then none else start, inert⟩

def wiredProgram (registry : Registry) (config : RuntimeConfig) (event : String)
    (graph : EventGraph) (start : Option Nat) : Program :=
  .starting (wire registry config event graph).nodes start

def buildEvent (registry : Registry) (config : RuntimeConfig) (event : String)
    (graph : EventGraph) (start : Option Nat) : Program × List Diagnostic :=
  let wiring := wire registry config event graph
  let lost := stranded wiring.nodes wiring.fromInert start
  ( .starting (makeInert wiring.nodes lost) start
  , startDiagnostics event graph start ++ wiring.diagnostics
      ++ lost.map fun i => ⟨event, some i, .unreachableThroughInert⟩ )

def looseStarts (d : GraphDefinition) : List Diagnostic :=
  d.starts.toList.filterMap fun (event, start) =>
    match start with
    | some node =>
      if d.defines event then none else some ⟨event, some node, .startWithoutGraph node⟩
    | none => none

structure Build where
  blueprint : Blueprint
  diagnostics : List Diagnostic

def GraphDefinition.build (registry : Registry) (config : RuntimeConfig) (d : GraphDefinition) :
    Build :=
  let built := d.events.mapNamed fun event graph =>
    buildEvent registry config event graph (d.start? event)
  { blueprint := ⟨built.map Prod.fst, d.vars⟩
    diagnostics := built.toList.flatMap (fun e => e.2.2) ++ looseStarts d }

end Nodeflow
