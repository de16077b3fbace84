import Nodeflow.Proofs.Program.Links

/-!
# Which nodes are inert

Apart from the nodes that cannot be bound, the inert nodes of a program are those that dangling
links lead to, directly or through accepted links, while neither the start does nor a node that
nothing leads to.  Each inert node is reported once, and nothing is reported on a definition
just if nothing is wrong with it.
-/

namespace Nodeflow

section Search

variable {nodes : List ProgramNode} {fromInert : List Nat}

theorem lt_of_isReady {i : Nat} (h : nodes[i]?.any ProgramNode.isReady = true) :
    i < nodes.length := by
  obtain ⟨n, hn, -⟩ := (Option.any_eq_true ..).1 h
  exact (List.getElem?_eq_some_iff.1 hn).1

theorem mem_roots_iff {r : Nat} :
    r ∈ roots nodes fromInert ↔ nodes[r]?.any ProgramNode.isReady = true ∧
      (∀ i, ¬Leads nodes i r) ∧ r ∉ fromInert := by
  have hlinked : r ∈ nodes.flatMap ProgramNode.targets ↔ ∃ i, Leads nodes i r := by
    rw [List.mem_flatMap]
    constructor
    · rintro ⟨n, hn, hr⟩
      obtain ⟨i, hi⟩ := List.mem_iff_getElem?.1 hn
      exact ⟨i, by simpa only [Leads, targetsAt, hi] using hr⟩
    · rintro ⟨i, hleads⟩
      cases hi : nodes[i]? with
      | none => simp [Leads, targetsAt, hi] at hleads
      | some n =>
          exact ⟨n, List.mem_of_getElem? hi, by simpa only [Leads, targetsAt, hi] using hleads⟩
  have hin : nodes[r]?.any ProgramNode.isReady = true → r < nodes.length := lt_of_isReady
  simp only [roots, List.mem_filter, List.mem_range, Bool.and_eq_true, Bool.not_eq_true',
    List.contains_eq_mem, decide_eq_false_iff_not, List.mem_append, hlinked, not_or, not_exists]
  tauto

theorem mem_stranded_iff {start : Option Nat} {i : Nat} :
    i ∈ stranded nodes fromInert start ↔ nodes[i]?.any ProgramNode.isReady = true ∧
      (∃ s ∈ fromInert, Relation.ReflTransGen (Leads nodes) s i) ∧
      ¬∃ s, (start = some s ∨ s ∈ roots nodes fromInert) ∧
        Relation.ReflTransGen (Leads nodes) s i := by
  have hin : nodes[i]?.any ProgramNode.isReady = true → i < nodes.length := lt_of_isReady
  simp only [stranded, List.mem_filter, List.mem_range, Bool.and_eq_true, Bool.not_eq_true',
    List.contains_eq_mem, decide_eq_false_iff_not, decide_eq_true_eq, mem_reachable_iff,
    List.mem_append, Option.mem_toList]
  tauto

theorem nodup_stranded (nodes : List ProgramNode) (fromInert : List Nat) (start : Option Nat) :
    (stranded nodes fromInert start).Nodup :=
  List.nodup_range.filter _

theorem getElem?_makeInert_eq_inert_iff {indices : List Nat} {i : Nat} :
    (makeInert nodes indices)[i]? = some .inert ↔
      i < nodes.length ∧ (nodes[i]?.any ProgramNode.isReady = true → i ∈ indices) := by
  rw [makeInert, List.getElem?_mapIdx]
  cases hnode : nodes[i]? with
  | none => simp [List.getElem?_eq_none_iff.1 hnode]
  | some n =>
      have hin := (List.getElem?_eq_some_iff.1 hnode).1
      cases n <;> simp [ProgramNode.isReady, ProgramNode.ready?, hin]

end Search

namespace EventGraph

section Specification

variable (registry : Registry) (config : RuntimeConfig) (graph : EventGraph)

def Joins (i j : Nat) : Prop :=
  ∃ slot before after, graph.links = before ++ ⟨i, j, slot⟩ :: after ∧
    graph.Accepts registry config before ⟨i, j, slot⟩

/-- Accepted links lead to a node from where a dangling link leads. -/
def Behind (i : Nat) : Prop :=
  ∃ link ∈ graph.links, graph.dangles registry config link = true ∧
    Relation.ReflTransGen (graph.Joins registry config) link.destination i

structure Root (r : Nat) : Prop where
  lt : r < graph.nodes.length
  bound : graph.fault? registry config r = none
  unjoined : ∀ i, ¬graph.Joins registry config i r
  undangled : ∀ link ∈ graph.links, graph.dangles registry config link = true →
    link.destination ≠ r

def Live (start : Option Nat) (i : Nat) : Prop :=
  ∃ s, (start = some s ∨ graph.Root registry config s) ∧
    Relation.ReflTransGen (graph.Joins registry config) s i

end Specification

variable {registry : Registry} {config : RuntimeConfig} {graph : EventGraph}

theorem lt_of_fault?_isSome {i : Nat} (h : (graph.fault? registry config i).isSome) :
    i < graph.nodes.length := by
  refine Nat.lt_of_not_le fun hout => ?_
  rw [fault?_of_length_le hout] at h
  contradiction

theorem Joins.lt {i j : Nat} (h : graph.Joins registry config i j) : j < graph.nodes.length := by
  obtain ⟨slot, before, after, -, haccepts⟩ := h
  exact (fits_iff.1 haccepts.1).1

theorem Behind.lt {i : Nat} (h : graph.Behind registry config i) : i < graph.nodes.length := by
  obtain ⟨link, -, hdangles, hreach⟩ := h
  cases hreach with
  | refl =>
      simp only [dangles, Bool.and_eq_true, decide_eq_true_eq] at hdangles
      exact hdangles.1
  | tail _ hjoins => exact hjoins.lt

/-! ## Wired nodes -/

section Wire

variable (registry : Registry) (config : RuntimeConfig) (event : String) (graph : EventGraph)

theorem leads_wire :
    Leads (wire registry config event graph).nodes = graph.Joins registry config := by
  funext i j
  exact propext (leads_iff.trans
    (exists_congr fun slot => outputAt_wire_eq_some_iff registry config event graph))

theorem length_wire_nodes :
    (wire registry config event graph).nodes.length = graph.nodes.length := by
  rw [wire_eq]
  exact List.length_mapIdx

theorem wire_isReady_iff {i : Nat} :
    (wire registry config event graph).nodes[i]?.any ProgramNode.isReady = true ↔
      i < graph.nodes.length ∧ graph.fault? registry config i = none := by
  rw [wire_eq, getElem?_wiring]
  cases hnode : graph.nodes[i]? with
  | none =>
      have hout := List.getElem?_eq_none_iff.1 hnode
      simp [Nat.not_lt.2 hout]
  | some node =>
      have hin := (List.getElem?_eq_some_iff.1 hnode).1
      cases hbound : buildNode registry config node with
      | ok ready =>
          simp [wiredNode, hbound, fault?_of_ok hnode hbound, hin, ProgramNode.isReady,
            ProgramNode.ready?]
      | error reason =>
          simp [wiredNode, hbound, fault?_of_error hnode hbound, ProgramNode.isReady,
            ProgramNode.ready?]

theorem mem_fromInert_wire_iff {i : Nat} :
    i ∈ (wire registry config event graph).fromInert ↔
      ∃ link ∈ graph.links, graph.dangles registry config link = true ∧ link.destination = i := by
  simp [wire_eq, wiring, and_assoc]

theorem mem_roots_wire_iff {r : Nat} :
    r ∈ roots (wire registry config event graph).nodes
        (wire registry config event graph).fromInert ↔ graph.Root registry config r := by
  rw [mem_roots_iff, wire_isReady_iff, leads_wire, mem_fromInert_wire_iff]
  constructor
  · rintro ⟨⟨hlt, hbound⟩, hunjoined, hundangled⟩
    exact ⟨hlt, hbound, hunjoined, fun link hlink hdangles hdestination =>
      hundangled ⟨link, hlink, hdangles, hdestination⟩⟩
  · intro hroot
    exact ⟨⟨hroot.lt, hroot.bound⟩, hroot.unjoined, fun ⟨link, hlink, hdangles, hdestination⟩ =>
      hroot.undangled link hlink hdangles hdestination⟩

theorem mem_stranded_wire_iff {start : Option Nat} {i : Nat} :
    i ∈ stranded (wire registry config event graph).nodes
        (wire registry config event graph).fromInert start ↔
      graph.fault? registry config i = none ∧ graph.Behind registry config i ∧
        ¬graph.Live registry config start i := by
  have hbehind : (∃ s ∈ (wire registry config event graph).fromInert,
      Relation.ReflTransGen (graph.Joins registry config) s i) ↔
        graph.Behind registry config i := by
    simp only [mem_fromInert_wire_iff]
    constructor
    · rintro ⟨s, ⟨link, hlink, hdangles, rfl⟩, hreach⟩
      exact ⟨link, hlink, hdangles, hreach⟩
    · rintro ⟨link, hlink, hdangles, hreach⟩
      exact ⟨link.destination, ⟨link, hlink, hdangles, rfl⟩, hreach⟩
  rw [mem_stranded_iff, wire_isReady_iff, leads_wire, hbehind]
  simp only [mem_roots_wire_iff]
  constructor
  · rintro ⟨⟨-, hbound⟩, hbehind, hlive⟩
    exact ⟨hbound, hbehind, hlive⟩
  · rintro ⟨hbound, hbehind, hlive⟩
    exact ⟨⟨hbehind.lt, hbound⟩, hbehind, hlive⟩

end Wire

/-! ## Inert nodes and what is reported on them -/

theorem filter_unreachable (event : String) {lost : List Nat} (hnodup : lost.Nodup) (i : Nat) :
    (lost.map fun j => (⟨event, some j, .unreachableThroughInert⟩ : Diagnostic)).filter
        (Diagnostic.concerns event i) =
      (if i ∈ lost then [DiagnosticReason.unreachableThroughInert] else []).map
        fun reason => ⟨event, some i, reason⟩ := by
  have hsame : (Diagnostic.concerns event i ∘ fun j =>
      (⟨event, some j, .unreachableThroughInert⟩ : Diagnostic)) = (· == i) := by
    funext j
    simp [Diagnostic.concerns, DiagnosticReason.subject]
  rw [List.filter_map, hsame, List.filter_beq]
  by_cases hi : i ∈ lost
  · rw [List.count_eq_one_of_mem hnodup hi, if_pos hi]
    rfl
  · rw [List.count_eq_zero_of_not_mem hi, if_neg hi]
    rfl

section Event

variable (registry : Registry) (config : RuntimeConfig) (event : String) (graph : EventGraph)
  (start : Option Nat)

theorem length_buildEvent_nodes :
    (buildEvent registry config event graph start).1.nodes.length = graph.nodes.length :=
  List.length_mapIdx.trans (length_wire_nodes registry config event graph)

theorem getElem?_buildEvent_eq_inert_iff {i : Nat} :
    (buildEvent registry config event graph start).1.nodes[i]? = some .inert ↔
      (graph.fault? registry config i).isSome ∨
        graph.Behind registry config i ∧ ¬graph.Live registry config start i := by
  refine getElem?_makeInert_eq_inert_iff.trans ?_
  rw [length_wire_nodes, wire_isReady_iff, mem_stranded_wire_iff]
  constructor
  · rintro ⟨hlt, hstranded⟩
    cases hfault : graph.fault? registry config i with
    | some reason => exact .inl rfl
    | none => exact .inr (hstranded ⟨hlt, hfault⟩).2
  · rintro (hfault | hbehind)
    · refine ⟨lt_of_fault?_isSome hfault, fun hbound => ?_⟩
      rw [hbound.2] at hfault
      contradiction
    · exact ⟨hbehind.1.lt, fun hbound => ⟨hbound.2, hbehind⟩⟩

theorem filter_buildEvent (i : Nat) :
    (buildEvent registry config event graph start).2.filter (Diagnostic.concerns event i) =
      ((graph.fault? registry config i).toList ++
        if i ∈ stranded (wire registry config event graph).nodes
            (wire registry config event graph).fromInert start then
          [DiagnosticReason.unreachableThroughInert]
        else []).map fun reason => ⟨event, some i, reason⟩ := by
  have hstart : (startDiagnostics event graph start).filter (Diagnostic.concerns event i) = [] :=
    filter_concerns_eq_nil (fun r hr => by simp [(startDiagnostics_subject hr).2]) event i
  have hnodes : (nodeDiagnostics event 0 (graph.nodes.map (buildNode registry config))).filter
      (Diagnostic.concerns event i) =
        (graph.fault? registry config i).toList.map fun reason => ⟨event, some i, reason⟩ := by
    have h := filter_nodeDiagnostics registry config event 0 graph.nodes i
    rw [Nat.zero_add] at h
    rw [h, List.getElem?_map, fault?]
    cases graph.nodes[i]? with
    | none => rfl
    | some node =>
        simp only [Option.map_some, Option.bind_some]
        cases buildNode registry config node <;> rfl
  have hlinks : (graph.linkReports registry config event [] graph.links).filter
      (Diagnostic.concerns event i) = [] :=
    filter_concerns_eq_nil (fun r hr => by simp [(linkReports_subject hr).2]) event i
  simp only [buildEvent, wire_eq, wiring, List.filter_append, hstart, hnodes, hlinks,
    List.nil_append, List.append_nil, List.map_append]
  rw [filter_unreachable event (nodup_stranded ..)]

theorem event_of_mem_buildEvent {r : Diagnostic}
    (h : r ∈ (buildEvent registry config event graph start).2) : r.event = event := by
  simp only [buildEvent, wire_eq, wiring, List.mem_append] at h
  rcases h with (h | h | h) | h
  · exact (startDiagnostics_subject h).1
  · exact (nodeDiagnostics_subject h).1
  · exact (linkReports_subject h).1
  · obtain ⟨i, -, rfl⟩ := List.mem_map.1 h
    rfl

theorem reports_on_inert {i : Nat}
    (h : (buildEvent registry config event graph start).1.nodes[i]? = some .inert) :
    (buildEvent registry config event graph start).2.filter (Diagnostic.concerns event i) =
      [⟨event, some i, (graph.fault? registry config i).getD .unreachableThroughInert⟩] := by
  rw [filter_buildEvent]
  cases hfault : graph.fault? registry config i with
  | some reason =>
      have hkept : i ∉ stranded (wire registry config event graph).nodes
          (wire registry config event graph).fromInert start := by
        simp [mem_stranded_wire_iff, hfault]
      rw [if_neg hkept]
      rfl
  | none =>
      have hinert := (getElem?_buildEvent_eq_inert_iff registry config event graph start).1 h
      have hlost : i ∈ stranded (wire registry config event graph).nodes
          (wire registry config event graph).fromInert start :=
        (mem_stranded_wire_iff ..).2 ⟨hfault, hinert.resolve_left (by simp [hfault])⟩
      rw [if_pos hlost]
      rfl

theorem reports_on_ready {i : Nat}
    (h : (buildEvent registry config event graph start).1.nodes[i]? ≠ some .inert) :
    (buildEvent registry config event graph start).2.filter (Diagnostic.concerns event i) = [] := by
  have hready := mt (getElem?_buildEvent_eq_inert_iff registry config event graph start).2 h
  rw [not_or, Option.not_isSome_iff_eq_none] at hready
  have hkept : i ∉ stranded (wire registry config event graph).nodes
      (wire registry config event graph).fromInert start :=
    fun hlost => hready.2 ((mem_stranded_wire_iff ..).1 hlost).2
  rw [filter_buildEvent, hready.1, if_neg hkept]
  rfl

theorem buildEvent_reports_eq_nil_iff :
    (buildEvent registry config event graph start).2 = [] ↔
      (.inert ∉ (buildEvent registry config event graph start).1.nodes) ∧
      (∀ before link after, graph.links = before ++ link :: after →
        graph.Accepts registry config before link) ∧
      ∀ s, start = some s → s < graph.nodes.length := by
  constructor
  · intro hnil
    have hready : .inert ∉ (buildEvent registry config event graph start).1.nodes := by
      intro hmem
      obtain ⟨i, hi⟩ := List.mem_iff_getElem?.1 hmem
      have hreports := reports_on_inert registry config event graph start hi
      rw [hnil] at hreports
      contradiction
    refine ⟨hready, ?_, ?_⟩
    · intro before link after hlinks
      have hreports := linkReports_of_build registry config event graph start
      rw [hnil] at hreports
      rcases linkReport?_eq_none_iff.1
        (linkReports_eq_nil_iff.1 hreports.symm before link after hlinks) with haccepts | hdangles
      · exact haccepts
      · simp only [dangles, Bool.and_eq_true] at hdangles
        have hinert := (getElem?_buildEvent_eq_inert_iff registry config event graph start).2
          (.inl hdangles.2)
        exact absurd (List.mem_of_getElem? hinert) hready
    · rintro s rfl
      refine Nat.lt_of_not_le fun hout => ?_
      simp [buildEvent, startDiagnostics, hout] at hnil
  · rintro ⟨hready, haccepts, hstart⟩
    refine List.eq_nil_iff_forall_not_mem.2 fun r hr => ?_
    have hnode : ∀ i, r.concerns event i = false := by
      intro i
      refine Bool.eq_false_iff.2 fun hconcerns => ?_
      have hfilter := List.mem_filter.2 ⟨hr, hconcerns⟩
      rw [reports_on_ready registry config event graph start fun hinert =>
        hready (List.mem_of_getElem? hinert)] at hfilter
      contradiction
    simp only [buildEvent, wire_eq, wiring, List.mem_append] at hr
    rcases hr with (hr | hr | hr) | hr
    · cases start with
      | none => contradiction
      | some s => simp [startDiagnostics, Nat.not_le.2 (hstart s rfl)] at hr
    · obtain ⟨i, -, hi⟩ := node_of_mem_nodeDiagnostics hr
      have hsubject := nodeDiagnostics_subject hr
      simp [Diagnostic.concerns, hsubject, hi] at hnode
    · rw [linkReports_eq_nil_iff.2 fun placed link after hlinks =>
        linkReport?_eq_none_iff.2 (.inl (haccepts placed link after hlinks))] at hr
      contradiction
    · obtain ⟨i, -, rfl⟩ := List.mem_map.1 hr
      simp [Diagnostic.concerns, DiagnosticReason.subject] at hnode

end Event

end EventGraph

/-! ## Definitions -/

section Definition

variable (registry : Registry) (config : RuntimeConfig) (d : GraphDefinition)

theorem build_diagnostics :
    (d.build registry config).diagnostics =
      (d.events.toList.flatMap fun e =>
        (buildEvent registry config e.1 e.2 (d.start? e.1)).2) ++ looseStarts d := by
  simp only [GraphDefinition.build, NameMap.mapNamed, List.flatMap_map]

theorem looseStarts_subject {r : Diagnostic} (h : r ∈ looseStarts d) :
    r.reason.subject = .start := by
  obtain ⟨⟨event, start⟩, -, h⟩ := List.mem_filterMap.1 h
  cases start with
  | none => contradiction
  | some s =>
      simp only at h
      split at h
      · contradiction
      · cases h
        rfl

theorem looseStarts_eq_nil_iff :
    looseStarts d = [] ↔ ∀ event s, d.start? event = some s → d.defines event = true := by
  simp only [GraphDefinition.start?, Option.join_eq_some_iff, ← NameMap.mem_toList_iff]
  rw [looseStarts, List.filterMap_eq_nil_iff]
  constructor
  · intro h event s hs
    simpa using h _ hs
  · rintro h ⟨event, start⟩ hmem
    cases start with
    | none => rfl
    | some s => simp [h event s hmem]

theorem build_diagnostics_eq_nil_iff :
    (d.build registry config).diagnostics = [] ↔
      (∀ event graph, d.events.find? event = some graph →
        (∀ program, (d.build registry config).blueprint.events.find? event = some program →
          .inert ∉ program.nodes) ∧
        (∀ before link after, graph.links = before ++ link :: after →
          graph.Accepts registry config before link) ∧
        ∀ s, d.start? event = some s → s < graph.nodes.length) ∧
      ∀ event s, d.start? event = some s → d.defines event = true := by
  rw [build_diagnostics, List.append_eq_nil_iff, looseStarts_eq_nil_iff, List.flatMap_eq_nil_iff]
  refine and_congr_left fun _ => ?_
  constructor
  · intro h event graph hgraph
    have hnil := h (event, graph) (NameMap.mem_toList_iff.2 hgraph)
    have hevent := (EventGraph.buildEvent_reports_eq_nil_iff registry config event graph _).1 hnil
    refine ⟨fun program hprogram => ?_, hevent.2⟩
    rw [GraphDefinition.find?_build_events, hgraph, Option.map_some] at hprogram
    cases hprogram
    exact hevent.1
  · rintro h ⟨event, graph⟩ hmem
    have hgraph := NameMap.mem_toList_iff.1 hmem
    obtain ⟨hready, hrest⟩ := h event graph hgraph
    refine (EventGraph.buildEvent_reports_eq_nil_iff registry config event graph _).2
      ⟨hready _ ?_, hrest⟩
    rw [GraphDefinition.find?_build_events, hgraph, Option.map_some]

variable {d}

theorem filter_build {event : String} {graph : EventGraph}
    (hgraph : d.events.find? event = some graph) (i : Nat) :
    (d.build registry config).diagnostics.filter (Diagnostic.concerns event i) =
      (buildEvent registry config event graph (d.start? event)).2.filter
        (Diagnostic.concerns event i) := by
  have hloose : (looseStarts d).filter (Diagnostic.concerns event i) = [] :=
    filter_concerns_eq_nil (fun r hr => by simp [looseStarts_subject d hr]) event i
  rw [build_diagnostics, List.filter_append, hloose, List.append_nil, List.filter_flatMap,
    NameMap.flatMap_toList hgraph]
  intro e hne
  refine List.filter_eq_nil_iff.2 fun r hr hconcerns => hne ?_
  rw [← EventGraph.event_of_mem_buildEvent registry config e.1 e.2 _ hr]
  exact (Diagnostic.concerns_iff.1 hconcerns).1

end Definition

/--
A node of an event is inert just if it cannot be bound, or a dangling link leads to it, directly
or through accepted links, while neither the start leads to it nor a node that can be bound and
that no accepted and no dangling link leads to.  Each inert node is reported once, with why it
cannot be bound or as stranded, and no other node is.  Nothing at all is reported on a
definition just if no node is inert, all links are accepted, all starts are there and every
event with a start has a graph.
-/
theorem build_reports_exactly (registry : Registry) (config : RuntimeConfig)
    (d : GraphDefinition) :
    let build := d.build registry config
    (∀ event graph, d.events.find? event = some graph →
      ∃ program, build.blueprint.events.find? event = some program ∧
        program.nodes.length = graph.nodes.length ∧
        (∀ i : Nat, program.nodes[i]? = some .inert ↔ (graph.fault? registry config i).isSome ∨
          graph.Behind registry config i ∧ ¬graph.Live registry config (d.start? event) i) ∧
        (∀ i : Nat, program.nodes[i]? = some .inert →
          build.diagnostics.filter (Diagnostic.concerns event i) =
            [⟨event, some i, (graph.fault? registry config i).getD .unreachableThroughInert⟩]) ∧
        ∀ i : Nat, program.nodes[i]? ≠ some .inert →
          build.diagnostics.filter (Diagnostic.concerns event i) = []) ∧
    (build.diagnostics = [] ↔
      (∀ event graph, d.events.find? event = some graph →
        (∀ program, build.blueprint.events.find? event = some program →
          .inert ∉ program.nodes) ∧
        (∀ before link after, graph.links = before ++ link :: after →
          graph.Accepts registry config before link) ∧
        ∀ s, d.start? event = some s → s < graph.nodes.length) ∧
      ∀ event s, d.start? event = some s → d.defines event = true) := by
  intro build
  have hbuild : build = d.build registry config := rfl
  rw [hbuild]
  constructor
  · intro event graph hgraph
    refine ⟨(buildEvent registry config event graph (d.start? event)).1, ?_, ?_, ?_, ?_, ?_⟩
    · rw [GraphDefinition.find?_build_events, hgraph, Option.map_some]
    · exact EventGraph.length_buildEvent_nodes registry config event graph _
    · exact fun i => EventGraph.getElem?_buildEvent_eq_inert_iff registry config event graph _
    · intro i hinert
      rw [filter_build registry config hgraph]
      exact EventGraph.reports_on_inert registry config event graph _ hinert
    · intro i hready
      rw [filter_build registry config hgraph]
      exact EventGraph.reports_on_ready registry config event graph _ hready
  · exact build_diagnostics_eq_nil_iff registry config d

end Nodeflow
