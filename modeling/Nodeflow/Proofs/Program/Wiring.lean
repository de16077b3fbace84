import Nodeflow.Program.Build
import Nodeflow.Proofs.Program.Reachability

/-!
# What building keeps of a node

Placing links changes where the outputs of nodes lead, and nothing else of them: a node of
a wired program has the capability and the parameters it was bound with, and it is inert
just where it could not be bound.  An output leads nowhere but where a link says.
-/

namespace Nodeflow

def ProgramNode.binding? (n : ProgramNode) : Option (UInt32 × List BoundParam) :=
  n.ready?.map fun node => (node.capability, node.params)

theorem ProgramNode.binding?_isSome (n : ProgramNode) : n.binding?.isSome = n.isReady :=
  Option.isSome_map

namespace Wiring

theorem place_binding? (event : String) (w : Wiring) (link : Link) :
    (w.place event link).nodes.map ProgramNode.binding? =
      w.nodes.map ProgramNode.binding? := by
  unfold place
  split
  · rfl
  · rename_i source hsource
    split
    · rfl
    · split
      · rfl
      · rename_i node
        split
        · rfl
        · rfl
        · rw [List.map_set]
          refine List.ext_getElem? fun i => ?_
          by_cases hi : link.source = i
          · subst hi
            have hin := (List.getElem?_eq_some_iff.1 hsource).1
            rw [List.getElem?_set_self (by simpa using hin), List.getElem?_map, hsource]
            rfl
          · rw [List.getElem?_set_ne hi]

theorem foldl_place_binding? (event : String) (links : List Link) (w : Wiring) :
    (links.foldl (Wiring.place event) w).nodes.map ProgramNode.binding? =
      w.nodes.map ProgramNode.binding? := by
  induction links generalizing w with
  | nil => rfl
  | cons link rest ih => exact (ih _).trans (place_binding? event w link)

end Wiring

section Wire

variable (registry : Registry) (config : RuntimeConfig) (event : String) (graph : EventGraph)

theorem wire_binding? :
    (wire registry config event graph).nodes.map ProgramNode.binding? =
      graph.nodes.map fun node => (builtNode (buildNode registry config node)).binding? := by
  refine (Wiring.foldl_place_binding? event graph.links _).trans ?_
  simp only [List.map_map]
  rfl

theorem wire_binding?_getElem? (i : Nat) :
    (wire registry config event graph).nodes[i]?.map ProgramNode.binding? =
      graph.nodes[i]?.map fun node =>
        (builtNode (buildNode registry config node)).binding? := by
  simpa only [List.getElem?_map] using
    congrArg (·[i]?) (wire_binding? registry config event graph)

end Wire

theorem builtNode_isReady (result : Except DiagnosticReason ReadyNode) :
    (builtNode result).isReady = result.isOk := by
  cases result <;> rfl

/-! ## Links -/

def outputAt (nodes : List ProgramNode) (index slot : Nat) : Option Nat :=
  (nodes[index]?.bind ProgramNode.ready?).bind fun node => node.successors[slot]?.join

theorem leads_iff {nodes : List ProgramNode} {i j : Nat} :
    Leads nodes i j ↔ ∃ slot, outputAt nodes i slot = some j := by
  simp only [Leads, targetsAt, outputAt]
  cases nodes[i]? with
  | none => simp
  | some n =>
      cases n with
      | inert => simp [ProgramNode.targets, ProgramNode.ready?]
      | ready node =>
          simp only [ProgramNode.targets, ProgramNode.ready?, Option.bind_some,
            List.mem_filterMap, id_eq, exists_eq_right, Option.join_eq_some_iff]
          exact List.mem_iff_getElem?

theorem buildNode_successors {registry : Registry} {config : RuntimeConfig} {node : Node}
    {ready : ReadyNode} (h : buildNode registry config node = .ok ready) :
    ∃ c, registry.get? ready.capability = some c ∧
      ready.successors = List.replicate c.descriptor.outputCount none := by
  unfold buildNode at h
  split at h
  · contradiction
  · split at h
    · contradiction
    · rename_i c hc
      simp only at h
      split at h
      · simp only [bind, Except.bind, pure, Except.pure] at h
        split at h
        · contradiction
        · cases h
          exact ⟨c, hc, rfl⟩
      · contradiction

/-! ## Programs -/

@[simp] theorem Program.node?_starting (nodes : List ProgramNode) (start : Option Nat) (i : Nat) :
    (Program.starting nodes start).node? i = nodes[i]?.bind ProgramNode.ready? :=
  rfl

theorem Program.entry?_starting (nodes : List ProgramNode) (start : Option Nat) :
    Program.entry? (.starting nodes start) =
      start.filter fun s => (nodes[s]?.bind ProgramNode.ready?).isSome := by
  cases start with
  | none => rfl
  | some s =>
      by_cases hs : nodes.length ≤ s
      · simp [starting, Program.entry?, hs, Option.filter]
      · simp [starting, Program.entry?, hs, Program.node?]

theorem GraphDefinition.find?_build_events (registry : Registry) (config : RuntimeConfig)
    (d : GraphDefinition) (event : String) :
    (d.build registry config).blueprint.events.find? event =
      (d.events.find? event).map fun graph =>
        (buildEvent registry config event graph (d.start? event)).1 := by
  simp only [build, NameMap.find?_map, NameMap.find?_mapNamed, Option.map_map, Function.comp_def]

theorem getElem?_makeInert (nodes : List ProgramNode) (indices : List Nat) (i : Nat) :
    (makeInert nodes indices)[i]?.bind ProgramNode.ready? =
      if i ∈ indices then none else nodes[i]?.bind ProgramNode.ready? := by
  simp only [makeInert, List.getElem?_mapIdx]
  cases nodes[i]? with
  | none => simp
  | some node =>
      by_cases hi : i ∈ indices
      · simp [hi, ProgramNode.ready?]
      · simp [hi]

def Program.Linked (p : Program) (links : List Link) (i j : Nat) : Prop :=
  ∃ link ∈ links, link.source = i ∧ link.destination = j ∧ p.successor? i link.slot = some j

theorem ready?_of_node?_buildEvent {registry : Registry} {config : RuntimeConfig} {event : String}
    {graph : EventGraph} {start : Option Nat} {i : Nat} {node : ReadyNode}
    (hnode : (buildEvent registry config event graph start).1.node? i = some node) :
    (wire registry config event graph).nodes[i]?.bind ProgramNode.ready? = some node := by
  have hnode : (makeInert (wire registry config event graph).nodes _)[i]?.bind
      ProgramNode.ready? = some node := hnode
  rw [getElem?_makeInert] at hnode
  split at hnode
  · contradiction
  · exact hnode

end Nodeflow
