import Nodeflow.Data.Json
import Nodeflow.Graph.Definition
import Nodeflow.Json.Printer

/-!
# Graph definitions as JSON

A parameter is saved as its literal, or as a table holding its expression; since no
literal is a table, the two never meet.  A link is saved as its source, destination and
slot in a list.  Variables are left out when there are none.
-/

namespace Nodeflow

/-! ## Writing -/

def Param.toJson : Param → Json
  | .expression source => .object [("expr", .string source)]
  | .literal value => value.toJson

def Position.toJson (p : Position) : Json :=
  .array [.ofNumeral? (savedSingleLayout.single? p.x), .ofNumeral? (savedSingleLayout.single? p.y)]

def Node.toJson (n : Node) : Json :=
  .object
    [ ("nodeFunction", .string n.function)
    , ("params", .array (n.params.map Param.toJson))
    , ("pos", n.position.toJson) ]

def Link.toJson (l : Link) : Json :=
  .array [.ofNat l.source, .ofNat l.destination, .ofNat l.slot]

def EventGraph.toJson (g : EventGraph) : Json :=
  .object
    [ ("nodes", .array (g.nodes.map Node.toJson))
    , ("links", .array (g.links.map Link.toJson)) ]

def entriesToJson {α : Type} (toJson : α → Json) (m : NameMap α) : Json :=
  .object (m.toList.map fun e => (e.1, toJson e.2))

def startToJson : Option Nat → Json
  | some node => .ofNat node
  | none => .null

def GraphDefinition.toJson (d : GraphDefinition) : Json :=
  let parts :=
    [ ("nodeGraph", entriesToJson EventGraph.toJson d.events)
    , ("startNodes", entriesToJson startToJson d.starts) ]
  if d.vars.isEmpty then .object parts
  else .object (parts ++ [("variables", entriesToJson Value.toJson d.vars)])

def GraphDefinition.save (d : GraphDefinition) : String :=
  d.toJson.pretty

/-! ## Reading

`room` bounds how many levels a part may still nest.
-/

/-- A table is an expression if its one `expr` is a text, and nothing otherwise.  All of
it has to be readable, also what stands beside the expression. -/
def Param.ofData? (room : Nat) (d : Data) : Option Param :=
  if d.depth ≤ room ∧ d.isReadable then
    match d with
    | .table entries =>
      match entries.filter fun e => e.1 == "expr" with
      | [(_, .text source)] => some (.expression source)
      | _ => none
    | d => (Value.ofData? d).map .literal
  else none

def Position.ofData? : Data → Option Position
  | .list [x, y] => do
    let x ← x.single?
    let y ← y.single?
    some ⟨x, y⟩
  | _ => none

def Node.ofData? (room : Nat) (d : Data) : Option Node := do
  match ← d.record? ["nodeFunction", "params", "pos"] with
  | [some function, params, position] =>
    let function ← function.text?
    let params ← Data.fieldOr [] (fun d => d.list?.bind (·.mapM (Param.ofData? (room - 2)))) params
    let position ← Data.fieldOr .origin Position.ofData? position
    some ⟨function, params, position⟩
  | _ => none

def Link.ofData? : Data → Option Link
  | .list [source, destination, slot] => do
    let source ← source.index?
    let destination ← destination.index?
    let slot ← slot.index?
    some ⟨source, destination, slot⟩
  | _ => none

def EventGraph.ofData? (room : Nat) (d : Data) : Option EventGraph := do
  match ← d.record? ["nodes", "links"] with
  | [nodes, links] =>
    let nodes ← Data.fieldOr [] (fun d => d.list?.bind (·.mapM (Node.ofData? (room - 2)))) nodes
    let links ← Data.fieldOr [] (fun d => d.list?.bind (·.mapM Link.ofData?)) links
    some ⟨nodes, links⟩
  | _ => none

def GraphDefinition.ofData? (room : Nat) (d : Data) : Option GraphDefinition := do
  match ← d.record? ["nodeGraph", "startNodes", "variables"] with
  | [events, starts, vars] =>
    let events ← Data.fieldOr ∅ (Data.map? (EventGraph.ofData? (room - 2))) events
    let starts ← Data.fieldOr ∅ (Data.map? (Data.nullable? Data.index?)) starts
    let vars ← Data.fieldOr ∅ (Data.map? (Value.ofShallowData? (room - 2))) vars
    some ⟨events, starts, vars⟩
  | _ => none

def GraphDefinition.load? (text : String) : Option GraphDefinition := do
  let json ← Json.parse? text
  GraphDefinition.ofData? jsonDepthLimit json.toData

end Nodeflow
