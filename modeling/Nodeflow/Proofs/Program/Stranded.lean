import Nodeflow.Proofs.Program.Wiring
import Nodeflow.Proofs.Run.Agreement

/-!
# Stranded nodes are never missed

The last step of building makes the nodes inert that can only be entered through nodes that
were inert before.  No run comes to such a node, so every run of the program is as it was
before that step.
-/

namespace Nodeflow

section Stranded

variable {nodes : List ProgramNode} {fromInert : List Nat} {start : Option Nat}

theorem not_mem_stranded {s i : Nat} (hstart : start = some s)
    (h : Relation.ReflTransGen (Leads nodes) s i) : i ∉ stranded nodes fromInert start := by
  have hlive : i ∈ reachable nodes (start.toList ++ roots nodes fromInert) := by
    refine mem_reachable_of_leads (List.mem_append_left _ ?_) h
    simp [hstart]
  simp [stranded, hlive]

theorem leads_of_successor? {i slot j : Nat}
    (h : (Program.starting nodes start).successor? i slot = some j) : Leads nodes i j :=
  leads_iff.2 ⟨slot, h⟩

theorem starting_agreeOn (nodes : List ProgramNode) (fromInert : List Nat) (start : Option Nat) :
    (Program.starting nodes start).AgreeOn
      (.starting (makeInert nodes (stranded nodes fromInert start)) start)
      fun i => ∃ s, start = some s ∧ Relation.ReflTransGen (Leads nodes) s i := by
  constructor
  · rintro i ⟨s, hs, hreach⟩
    rw [Program.node?_starting, Program.node?_starting, getElem?_makeInert,
      if_neg (not_mem_stranded hs hreach)]
  · rintro i slot j ⟨s, hs, hreach⟩ hnext
    exact ⟨s, hs, hreach.tail (leads_of_successor? hnext)⟩

theorem entry?_makeInert_stranded (nodes : List ProgramNode) (fromInert : List Nat)
    (start : Option Nat) :
    Program.entry? (.starting (makeInert nodes (stranded nodes fromInert start)) start) =
      Program.entry? (.starting nodes start) := by
  cases hstart : start with
  | none => rfl
  | some s =>
      have hs : s ∉ stranded nodes fromInert (some s) := not_mem_stranded rfl .refl
      simp [Program.entry?_starting, getElem?_makeInert, Option.filter, hs]

end Stranded

theorem wiredProgram_node?_isSome (registry : Registry) (limits : RuntimeConfig) (event : String)
    (graph : EventGraph) (start : Option Nat) (i : Nat) :
    ((wiredProgram registry limits event graph start).node? i).isSome =
      graph.nodes[i]?.any fun node => (buildNode registry limits node).isOk := by
  have hbinding := wire_binding?_getElem? registry limits event graph i
  rw [wiredProgram, Program.node?_starting]
  cases hwired : (wire registry limits event graph).nodes[i]? with
  | none =>
      rw [hwired, Option.map_none, eq_comm, Option.map_eq_none_iff] at hbinding
      rw [hbinding]
      rfl
  | some n =>
      rw [hwired, Option.map_some, eq_comm, Option.map_eq_some_iff] at hbinding
      obtain ⟨node, hnode, hbinding⟩ := hbinding
      have hready : n.isReady = (builtNode (buildNode registry limits node)).isReady := by
        rw [← n.binding?_isSome, ← hbinding, ProgramNode.binding?_isSome]
      rw [hnode]
      exact hready.trans (builtNode_isReady _)

/--
Making stranded nodes inert is never noticed.  It changes neither the entry of an event nor
any node that the start leads to, and the chains of the event, with whatever happens to the
store between their parts, are those of the program in which only the nodes are inert that
could not be bound.
-/
theorem buildEvent_chains (registry : Registry) (limits config : RuntimeConfig) (event : String)
    (graph : EventGraph) (start : Option Nat) :
    let wired := wiredProgram registry limits event graph start
    let built := (buildEvent registry limits event graph start).1
    (∀ i, (wired.node? i).isSome =
      graph.nodes[i]?.any fun node => (buildNode registry limits node).isOk) ∧
    (∀ s i, start = some s → Relation.ReflTransGen (Leads wired.nodes) s i →
      built.node? i = wired.node? i) ∧
    built.entry? = wired.entry? ∧
    ∀ (host : BoundGraph) (found : Nat → Store → Store) (object : Object) (args : EventArgs),
      ∃ parts,
        (∀ other, Parts registry config (host.withProgram event wired) found 0
          (runEvent registry config (host.withProgram event wired) object event args) other ↔
            other = parts) ∧
        ∀ other, Parts registry config (host.withProgram event built) found 0
          (runEvent registry config (host.withProgram event built) object event args) other ↔
            other = parts := by
  intro wired built
  have hagree := starting_agreeOn (wire registry limits event graph).nodes
    (wire registry limits event graph).fromInert start
  have hentry : built.entry? = wired.entry? := entry?_makeInert_stranded _ _ start
  refine ⟨wiredProgram_node?_isSome registry limits event graph start, ?_, hentry, ?_⟩
  · intro s i hs hreach
    exact hagree.node i ⟨s, hs, hreach⟩
  · intro host found object args
    refine runEvent_agree hagree registry config host found object args hentry fun i hi => ?_
    have hi : Program.entry? (.starting _ start) = some i := hi
    rw [Program.entry?_starting, Option.filter_eq_some_iff] at hi
    exact ⟨i, hi.1, .refl⟩

end Nodeflow
