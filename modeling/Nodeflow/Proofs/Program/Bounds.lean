import Mathlib.Data.List.Sort
import Nodeflow.Proofs.Program.Wiring

/-!
# Programs are well formed

Links and starts may name any number as a node.  A link is checked against the number of nodes
before it is placed, and from then on lists of nodes are read and written without a check.
Building that way never leaves a list, and in what is built every node that can run has a
registered capability, a table with an entry for each of its outputs, and successors that are
nodes of its program.
-/

namespace Nodeflow

/-! ## Well-formed nodes -/

/-- A node has a registered capability and a successor, or none, for each of its outputs,
those that a result may select included, and its successors are among some first indices. -/
structure ReadyNode.WellFormed (registry : Registry) (count : Nat) (node : ReadyNode) : Prop where
  resolves : ∃ capability, registry.get? node.capability = some capability ∧
    node.successors.length = capability.descriptor.outputCount ∧
    ∀ result slot, capability.descriptor.selectSlot result = some slot →
      slot < node.successors.length
  bounded : ∀ j, some j ∈ node.successors → j < count

def WellFormedNodes (registry : Registry) (nodes : List ProgramNode) : Prop :=
  ∀ node, .ready node ∈ nodes → node.WellFormed registry nodes.length

structure Program.WellFormed (registry : Registry) (p : Program) : Prop where
  nodes : WellFormedNodes registry p.nodes
  entry : ∀ i, p.entry? = some i → i < p.nodes.length

section WellFormed

variable {registry : Registry} {config : RuntimeConfig} {count : Nat} {node : ReadyNode}

theorem buildNode_wellFormed {n : Node} (h : buildNode registry config n = .ok node) :
    node.WellFormed registry count := by
  obtain ⟨c, hc, hsuccessors⟩ := buildNode_successors h
  have hlength : node.successors.length = c.descriptor.outputCount := by
    rw [hsuccessors, List.length_replicate]
  refine ⟨⟨c, hc, hlength, ?_⟩, ?_⟩
  · intro result slot hslot
    rw [hlength]
    exact Descriptor.selectSlot_lt hslot
  · intro j hj
    rw [hsuccessors] at hj
    have := (List.mem_replicate.1 hj).2
    contradiction

theorem ReadyNode.WellFormed.set (h : node.WellFormed registry count) (slot : Nat) {j : Nat}
    (hj : j < count) :
    { node with successors := node.successors.set slot (some j) : ReadyNode }.WellFormed
      registry count := by
  obtain ⟨⟨c, hc, hlength, hslots⟩, hbounded⟩ := h
  refine ⟨⟨c, hc, ?_, ?_⟩, ?_⟩
  · simpa using hlength
  · simpa using hslots
  · intro k hk
    rcases List.mem_or_eq_of_mem_set hk with hk | hk
    · exact hbounded k hk
    · cases hk
      exact hj

theorem getElem?_of_ready? {nodes : List ProgramNode} {i : Nat}
    (h : nodes[i]?.bind ProgramNode.ready? = some node) : nodes[i]? = some (.ready node) := by
  obtain ⟨n, hn, hready⟩ := Option.bind_eq_some_iff.1 h
  cases n with
  | inert => contradiction
  | ready _ =>
      cases hready
      exact hn

theorem WellFormedNodes.outputAt_lt {nodes : List ProgramNode}
    (h : WellFormedNodes registry nodes) {i slot j : Nat} (hj : outputAt nodes i slot = some j) :
    j < nodes.length := by
  obtain ⟨node, hnode, hsuccessor⟩ := Option.bind_eq_some_iff.1 hj
  have hready := List.mem_of_getElem? (getElem?_of_ready? hnode)
  exact (h node hready).bounded j
    (List.mem_of_getElem? (Option.join_eq_some_iff.1 hsuccessor))

end WellFormed

theorem entry?_lt {p : Program} {i : Nat} (h : p.entry? = some i) : i < p.nodes.length := by
  unfold Program.entry? at h
  split at h
  · contradiction
  · have hnode := (Option.filter_eq_some_iff.1 h).2
    obtain ⟨node, hready⟩ := Option.isSome_iff_exists.1 hnode
    exact (List.getElem?_eq_some_iff.1 (getElem?_of_ready? hready)).1

/-! ## Placing links -/

namespace Wiring

def place? (count : Nat) (event : String) (w : Wiring) (link : Link) : Option Wiring :=
  if count ≤ link.source ∨ count ≤ link.destination then
    let bad := if count ≤ link.source then link.source else link.destination
    let node := if link.source < count then some link.source else none
    some (w.report event node (.linkOutOfRange bad))
  else
    w.nodes[link.source]?.map fun source =>
      match source with
      | .inert => { w with fromInert := w.fromInert ++ [link.destination] }
      | .ready node =>
        match node.successors[link.slot]? with
        | none =>
          w.report event (some link.source) (.slotOutOfRange link.slot node.successors.length)
        | some (some _) => w.report event (some link.source) (.slotAlreadyLinked link.slot)
        | some none =>
          let successors := node.successors.set link.slot (some link.destination)
          { w with nodes := w.nodes.set link.source (.ready { node with successors }) }

structure WellFormed (registry : Registry) (count : Nat) (w : Wiring) : Prop where
  length : w.nodes.length = count
  nodes : WellFormedNodes registry w.nodes
  fromInert : ∀ j ∈ w.fromInert, j < count

section Place

variable {registry : Registry} {count : Nat} {w : Wiring}

theorem place?_eq (event : String) (link : Link) (hlength : w.nodes.length = count) :
    w.place? count event link = some (w.place event link) := by
  subst hlength
  unfold place? place
  by_cases hsource : w.nodes.length ≤ link.source
  · simp [hsource, Nat.not_lt.2 hsource]
  · have hlt : link.source < w.nodes.length := Nat.not_le.1 hsource
    rw [List.getElem?_eq_getElem hlt]
    by_cases hdestination : w.nodes.length ≤ link.destination
    · simp [hsource, hdestination, hlt]
    · cases w.nodes[link.source] with
      | inert => simp [hsource, hdestination]
      | ready node =>
          rcases hslot : node.successors[link.slot]? with _ | _ | _ <;>
            simp [hsource, hdestination, hslot]

theorem WellFormed.place (h : w.WellFormed registry count) (event : String) (link : Link) :
    (w.place event link).WellFormed registry count := by
  obtain ⟨hlength, hnodes, hinert⟩ := h
  subst hlength
  unfold Wiring.place
  split
  · exact ⟨rfl, hnodes, hinert⟩
  · rename_i source hsource
    split
    · exact ⟨rfl, hnodes, hinert⟩
    · rename_i hdestination
      have hlt : link.destination < w.nodes.length := Nat.not_le.1 hdestination
      split
      · refine ⟨rfl, hnodes, fun j hj => ?_⟩
        rcases List.mem_append.1 hj with hj | hj
        · exact hinert j hj
        · rw [List.mem_singleton.1 hj]
          exact hlt
      · rename_i node
        split
        · exact ⟨rfl, hnodes, hinert⟩
        · exact ⟨rfl, hnodes, hinert⟩
        · refine ⟨List.length_set, ?_, hinert⟩
          intro other hother
          rw [List.length_set]
          rcases List.mem_or_eq_of_mem_set hother with hother | hother
          · exact hnodes other hother
          · cases hother
            exact (hnodes node (List.mem_of_getElem? hsource)).set link.slot hlt

theorem WellFormed.foldlM_place? (h : w.WellFormed registry count) (event : String)
    (links : List Link) :
    links.foldlM (Wiring.place? count event) w = some (links.foldl (Wiring.place event) w) ∧
      (links.foldl (Wiring.place event) w).WellFormed registry count := by
  induction links generalizing w with
  | nil => exact ⟨rfl, h⟩
  | cons link links ih =>
      rw [List.foldlM_cons, place?_eq event link h.length]
      exact ih (h.place event link)

end Place

end Wiring

def wire? (registry : Registry) (config : RuntimeConfig) (event : String) (graph : EventGraph) :
    Option Wiring :=
  let built := graph.nodes.map (buildNode registry config)
  graph.links.foldlM (Wiring.place? graph.nodes.length event)
    ⟨built.map builtNode, [], nodeDiagnostics event 0 built⟩

section Wire

variable (registry : Registry) (config : RuntimeConfig) (event : String) (graph : EventGraph)

theorem wellFormed_built :
    Wiring.WellFormed registry graph.nodes.length
      ⟨(graph.nodes.map (buildNode registry config)).map builtNode, [],
        nodeDiagnostics event 0 (graph.nodes.map (buildNode registry config))⟩ := by
  refine ⟨by simp, ?_, nofun⟩
  intro node hnode
  obtain ⟨result, hresult, hnode⟩ := List.mem_map.1 hnode
  obtain ⟨n, -, rfl⟩ := List.mem_map.1 hresult
  cases hbuilt : buildNode registry config n with
  | error reason =>
      rw [hbuilt] at hnode
      contradiction
  | ok ready =>
      rw [hbuilt] at hnode
      cases hnode
      exact buildNode_wellFormed hbuilt

theorem wire?_eq : wire? registry config event graph = some (wire registry config event graph) :=
  ((wellFormed_built registry config event graph).foldlM_place? event graph.links).1

theorem wellFormed_wire :
    (wire registry config event graph).WellFormed registry graph.nodes.length :=
  ((wellFormed_built registry config event graph).foldlM_place? event graph.links).2

end Wire

/-! ## Marking stranded nodes -/

def roots? (nodes : List ProgramNode) (fromInert : List Nat) : Option (List Nat) :=
  let linked := nodes.flatMap ProgramNode.targets ++ fromInert
  (List.range nodes.length).filterM fun i =>
    if linked.contains i then some false else nodes[i]?.map ProgramNode.isReady

def strand? (live : List Nat) :
    List Nat → List ProgramNode → Option (List ProgramNode × List Nat)
  | [], nodes => some (nodes, [])
  | index :: rest, nodes =>
    if live.contains index then strand? live rest nodes
    else
      nodes[index]?.bind fun node =>
        if node.isReady then
          (strand? live rest (nodes.set index .inert)).map fun marked =>
            (marked.1, index :: marked.2)
        else strand? live rest nodes

def lost (nodes : List ProgramNode) (live indices : List Nat) : List Nat :=
  indices.filter fun i => !live.contains i && nodes[i]?.any ProgramNode.isReady

theorem filterM_eq_some {α : Type} {p : α → Option Bool} {q : α → Bool} {l : List α}
    (h : ∀ a ∈ l, p a = some (q a)) : l.filterM p = some (l.filter q) := by
  have hloop : ∀ acc, l.filterAuxM p acc = some ((l.filter q).reverse ++ acc) := by
    induction l with
    | nil => exact fun acc => rfl
    | cons a l ih =>
        intro acc
        have hrest := ih fun b hb => h b (List.mem_cons_of_mem a hb)
        rw [List.filterAuxM, h a List.mem_cons_self]
        cases hq : q a with
        | true => simp [hrest, hq]
        | false => simp [hrest, hq]
  simp [List.filterM, hloop]

section Strand

variable {nodes : List ProgramNode} {fromInert : List Nat}

theorem roots?_eq : roots? nodes fromInert = some (roots nodes fromInert) := by
  refine filterM_eq_some fun i hi => ?_
  rw [List.getElem?_eq_getElem (List.mem_range.1 hi)]
  split
  · rename_i hlinked
    rw [hlinked]
    rfl
  · rename_i hlinked
    rw [Bool.eq_false_iff.2 hlinked]
    rfl

theorem makeInert_set (nodes : List ProgramNode) (index : Nat) (indices : List Nat) :
    makeInert (nodes.set index .inert) indices = makeInert nodes (index :: indices) := by
  refine List.ext_getElem? fun i => ?_
  simp only [makeInert, List.getElem?_mapIdx, List.contains_cons]
  by_cases hi : index = i
  · subst hi
    rw [List.getElem?_set_self']
    cases nodes[index]? <;> simp
  · rw [List.getElem?_set_ne hi]
    have hbeq : (i == index) = false := by simpa using Ne.symm hi
    rw [hbeq, Bool.false_or]

theorem strand?_eq (live : List Nat) {indices : List Nat} (hnodup : indices.Nodup)
    (hin : ∀ i ∈ indices, i < nodes.length) :
    strand? live indices nodes =
      some (makeInert nodes (lost nodes live indices), lost nodes live indices) := by
  induction indices generalizing nodes with
  | nil =>
      have hsame : makeInert nodes [] = nodes := List.ext_getElem? fun i => by simp [makeInert]
      rw [strand?, lost, List.filter_nil, hsame]
  | cons index rest ih =>
      obtain ⟨hfresh, hnodup⟩ := List.nodup_cons.1 hnodup
      have hlt := hin index List.mem_cons_self
      have hrest : ∀ i ∈ rest, i < nodes.length := fun i hi => hin i (List.mem_cons_of_mem _ hi)
      rw [strand?]
      by_cases hlive : live.contains index = true
      · rw [if_pos hlive, ih hnodup hrest]
        simp only [lost, List.filter_cons, hlive, Bool.not_true, Bool.false_and, reduceCtorEq,
          if_false]
      · have hnode : nodes[index]?.any ProgramNode.isReady = nodes[index].isReady := by
          rw [List.getElem?_eq_getElem hlt, Option.any_some]
        rw [if_neg hlive, List.getElem?_eq_getElem hlt, Option.bind_some]
        rw [Bool.not_eq_true] at hlive
        cases hready : nodes[index].isReady with
        | false =>
            rw [if_neg Bool.false_ne_true, ih hnodup hrest]
            simp only [lost, List.filter_cons, hnode, hready, Bool.and_false, reduceCtorEq,
              if_false]
        | true =>
            have hsame : lost (nodes.set index .inert) live rest = lost nodes live rest := by
              refine List.filter_congr fun i hi => ?_
              have hne : index ≠ i := fun heq => hfresh (heq ▸ hi)
              rw [List.getElem?_set_ne hne]
            have hlost : lost nodes live (index :: rest) = index :: lost nodes live rest := by
              simp only [lost, List.filter_cons, hlive, hnode, hready, Bool.not_false,
                Bool.and_self, if_true]
            rw [if_pos rfl, ih hnodup (by simpa using hrest), hsame, hlost, Option.map_some,
              makeInert_set]

theorem lt_of_mem_reachable {registry : Registry} (hnodes : WellFormedNodes registry nodes)
    {seeds : List Nat} (hseeds : ∀ s ∈ seeds, s < nodes.length) {i : Nat}
    (hi : i ∈ reachable nodes seeds) : i < nodes.length := by
  obtain ⟨s, hs, hreach⟩ := mem_reachable_iff.1 hi
  cases hreach with
  | refl => exact hseeds i hs
  | tail _ hleads =>
      obtain ⟨slot, hslot⟩ := leads_iff.1 hleads
      exact hnodes.outputAt_lt hslot

theorem lost_mergeSort_reachable (start : Option Nat) :
    lost nodes (reachable nodes (start.toList ++ roots nodes fromInert))
        ((reachable nodes fromInert).mergeSort fun a b => a ≤ b) =
      stranded nodes fromInert start := by
  have hsorted : ((reachable nodes fromInert).mergeSort fun a b => a ≤ b).SortedLT :=
    List.sortedLE_mergeSort.sortedLT_of_nodup
      ((List.mergeSort_perm _ _).nodup_iff.2 (nodup_reachable nodes fromInert))
  refine List.Pairwise.eq_of_mem_iff (hsorted.pairwise.filter _)
    (List.pairwise_lt_range.filter _) fun i => ?_
  have hin : nodes[i]?.any ProgramNode.isReady = true → i < nodes.length := by
    intro h
    obtain ⟨n, hn, -⟩ := (Option.any_eq_true ..).1 h
    exact (List.getElem?_eq_some_iff.1 hn).1
  simp only [lost, stranded, List.mem_filter, List.mem_mergeSort, List.mem_range,
    Bool.and_eq_true, List.contains_iff_mem]
  tauto

end Strand

/-! ## Events and definitions -/

/-- The program of an event, built without checks of indices after those of its links.  The
nodes behind inert ones are looked at in ascending order. -/
def buildEvent? (registry : Registry) (config : RuntimeConfig) (event : String)
    (graph : EventGraph) (start : Option Nat) : Option (Program × List Diagnostic) := do
  let wiring ← wire? registry config event graph
  let roots ← roots? wiring.nodes wiring.fromInert
  let live := reachable wiring.nodes (start.toList ++ roots)
  let behind := (reachable wiring.nodes wiring.fromInert).mergeSort fun a b => a ≤ b
  let (nodes, lost) ← strand? live behind wiring.nodes
  pure
    ( .starting nodes start
    , startDiagnostics event graph start ++ wiring.diagnostics
        ++ lost.map fun i => ⟨event, some i, .unreachableThroughInert⟩ )

def GraphDefinition.build? (registry : Registry) (config : RuntimeConfig) (d : GraphDefinition) :
    Option Build := do
  let built ← d.events.toList.mapM fun e => do
    let built ← buildEvent? registry config e.1 e.2 (d.start? e.1)
    pure (e.1, built)
  pure
    { blueprint := ⟨.ofList (built.map fun e => (e.1, e.2.1)), d.vars⟩
      diagnostics := built.flatMap (fun e => e.2.2) ++ looseStarts d }

section Build

variable (registry : Registry) (config : RuntimeConfig)

theorem buildEvent?_eq (event : String) (graph : EventGraph) (start : Option Nat) :
    buildEvent? registry config event graph start =
      some (buildEvent registry config event graph start) := by
  obtain ⟨hlength, hnodes, hinert⟩ := wellFormed_wire registry config event graph
  rw [← hlength] at hinert
  have hbehind : ∀ i ∈ (reachable (wire registry config event graph).nodes
      (wire registry config event graph).fromInert).mergeSort fun a b => a ≤ b,
      i < (wire registry config event graph).nodes.length := fun i hi =>
    lt_of_mem_reachable hnodes hinert (List.mem_mergeSort.1 hi)
  have hnodup := (List.mergeSort_perm _ fun a b => a ≤ b).nodup_iff.2 (nodup_reachable
    (wire registry config event graph).nodes (wire registry config event graph).fromInert)
  have hstrand := fun live => strand?_eq live hnodup hbehind
  simp only [buildEvent?, wire?_eq, roots?_eq, Option.bind_eq_bind, Option.bind_some, hstrand,
    lost_mergeSort_reachable]
  rfl

theorem wellFormed_buildEvent (event : String) (graph : EventGraph) (start : Option Nat) :
    (buildEvent registry config event graph start).1.WellFormed registry := by
  refine ⟨?_, fun i => entry?_lt⟩
  intro node hnode
  obtain ⟨i, hi⟩ := List.mem_iff_getElem?.1 hnode
  have hready : (buildEvent registry config event graph start).1.node? i = some node := by
    rw [Program.node?, hi]
    rfl
  have hwired := List.mem_of_getElem? (getElem?_of_ready? (ready?_of_node?_buildEvent hready))
  have hlength : (buildEvent registry config event graph start).1.nodes.length =
      (wire registry config event graph).nodes.length := List.length_mapIdx
  rw [hlength]
  exact (wellFormed_wire registry config event graph).nodes node hwired

theorem GraphDefinition.build?_eq (d : GraphDefinition) :
    d.build? registry config = some (d.build registry config) := by
  have hevents : (d.events.toList.mapM fun e => do
      let built ← buildEvent? registry config e.1 e.2 (d.start? e.1)
      pure (e.1, built)) =
        some (d.events.mapNamed fun event graph =>
          buildEvent registry config event graph (d.start? event)).toList := by
    simp only [buildEvent?_eq, Option.bind_eq_bind, Option.bind_some]
    exact List.mapM_pure
  rw [build?, hevents, Option.bind_eq_bind, Option.bind_some]
  have hmap : NameMap.ofList ((d.events.mapNamed fun event graph =>
      buildEvent registry config event graph (d.start? event)).map Prod.fst).toList =
        (d.events.mapNamed fun event graph =>
          buildEvent registry config event graph (d.start? event)).map Prod.fst :=
    NameMap.ext_toList (NameMap.toList_ofList (NameMap.sorted _))
  rw [build, ← hmap]
  rfl

theorem wellFormed_build (d : GraphDefinition) {event : String} {program : Program}
    (h : (d.build registry config).blueprint.events.find? event = some program) :
    program.WellFormed registry := by
  rw [GraphDefinition.find?_build_events, Option.map_eq_some_iff] at h
  obtain ⟨graph, -, rfl⟩ := h
  exact wellFormed_buildEvent registry config event graph (d.start? event)

end Build

end Nodeflow
