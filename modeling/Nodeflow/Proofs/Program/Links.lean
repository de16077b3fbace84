import Mathlib.Data.List.Nodup
import Nodeflow.Proofs.Program.Reachability
import Nodeflow.Proofs.Program.Reports
import Nodeflow.Proofs.Program.Wiring

/-!
# Which links are placed

Placing the links of an event one after the other comes to this: an output leads where the
first link says that leaves by it and fits, which is a link to a node that there is, from an
output that there is.  Every other link is reported, in the order of the links, unless it
leaves a node that could not be bound.
-/

namespace Nodeflow

def Link.output (link : Link) : Nat × Nat :=
  (link.source, link.slot)

namespace EventGraph

section Specification

variable (registry : Registry) (config : RuntimeConfig) (graph : EventGraph)

def fault? (i : Nat) : Option DiagnosticReason :=
  graph.nodes[i]?.bind fun node =>
    match buildNode registry config node with
    | .ok _ => none
    | .error reason => some reason

def outputs? (i : Nat) : Option Nat :=
  graph.nodes[i]?.bind fun node =>
    match buildNode registry config node with
    | .ok ready => (registry.get? ready.capability).map fun c => c.descriptor.outputCount
    | .error _ => none

def fits (link : Link) : Bool :=
  link.destination < graph.nodes.length &&
    (graph.outputs? registry config link.source).any fun count => link.slot < count

def dangles (link : Link) : Bool :=
  link.destination < graph.nodes.length && (graph.fault? registry config link.source).isSome

def target? (links : List Link) (i slot : Nat) : Option Nat :=
  (links.find? fun link => link.output == (i, slot) && graph.fits registry config link).map
    Link.destination

/-- A link that comes after some others fits, and is the first of its output that does. -/
def Accepts (before : List Link) (link : Link) : Prop :=
  graph.fits registry config link = true ∧
    ∀ other ∈ before, graph.fits registry config other = true → other.output ≠ link.output

def linkReport? (event : String) (before : List Link) (link : Link) : Option Diagnostic :=
  if graph.nodes.length ≤ link.source then
    some ⟨event, none, .linkOutOfRange link.source⟩
  else if graph.nodes.length ≤ link.destination then
    some ⟨event, some link.source, .linkOutOfRange link.destination⟩
  else
    (graph.outputs? registry config link.source).bind fun count =>
      if count ≤ link.slot then
        some ⟨event, some link.source, .slotOutOfRange link.slot count⟩
      else if (graph.target? registry config before link.source link.slot).isSome then
        some ⟨event, some link.source, .slotAlreadyLinked link.slot⟩
      else none

def linkReports (event : String) (before : List Link) : List Link → List Diagnostic
  | [] => []
  | link :: rest =>
      (graph.linkReport? registry config event before link).toList ++
        linkReports event (before ++ [link]) rest

def wiredNode (links : List Link) (i : Nat) (node : Node) : ProgramNode :=
  match buildNode registry config node with
  | .ok ready =>
      .ready { ready with
        successors := (List.range ready.successors.length).map
          (graph.target? registry config links i) }
  | .error _ => .inert

def wiring (event : String) (links : List Link) : Wiring where
  nodes := graph.nodes.mapIdx (graph.wiredNode registry config links)
  fromInert := (links.filter (graph.dangles registry config)).map Link.destination
  diagnostics := nodeDiagnostics event 0 (graph.nodes.map (buildNode registry config)) ++
    graph.linkReports registry config event [] links

end Specification

variable {registry : Registry} {config : RuntimeConfig} {graph : EventGraph}

/-! ## Bound nodes and their outputs -/

section Node

variable {i : Nat} {node : Node} (hnode : graph.nodes[i]? = some node)
include hnode

theorem fault?_of_ok {ready : ReadyNode} (hready : buildNode registry config node = .ok ready) :
    graph.fault? registry config i = none := by
  simp only [fault?, hnode, Option.bind_some, hready]

theorem fault?_of_error {reason : DiagnosticReason}
    (hreason : buildNode registry config node = .error reason) :
    graph.fault? registry config i = some reason := by
  simp only [fault?, hnode, Option.bind_some, hreason]

theorem outputs?_of_ok {ready : ReadyNode} (hready : buildNode registry config node = .ok ready) :
    graph.outputs? registry config i = some ready.successors.length := by
  obtain ⟨c, hc, hsuccessors⟩ := buildNode_successors hready
  simp only [outputs?, hnode, Option.bind_some, hready, hc, Option.map_some, hsuccessors,
    List.length_replicate]

theorem outputs?_of_error {reason : DiagnosticReason}
    (hreason : buildNode registry config node = .error reason) :
    graph.outputs? registry config i = none := by
  simp only [outputs?, hnode, Option.bind_some, hreason]

end Node

theorem outputs?_of_length_le {i : Nat} (hout : graph.nodes.length ≤ i) :
    graph.outputs? registry config i = none := by
  simp only [outputs?, List.getElem?_eq_none hout, Option.bind_none]

theorem fault?_of_length_le {i : Nat} (hout : graph.nodes.length ≤ i) :
    graph.fault? registry config i = none := by
  simp only [fault?, List.getElem?_eq_none hout, Option.bind_none]

theorem fits_iff {link : Link} :
    graph.fits registry config link = true ↔ link.destination < graph.nodes.length ∧
      ∃ count, graph.outputs? registry config link.source = some count ∧ link.slot < count := by
  simp only [fits, Bool.and_eq_true, decide_eq_true_eq, Option.any_eq_true]

/-! ## Where outputs lead -/

theorem target?_eq_none_iff {links : List Link} {i slot : Nat} :
    graph.target? registry config links i slot = none ↔
      ∀ link ∈ links, graph.fits registry config link = true → link.output ≠ (i, slot) := by
  simp only [target?, Option.map_eq_none_iff, List.find?_eq_none, Bool.and_eq_true, beq_iff_eq,
    not_and, Bool.not_eq_true]
  refine forall₂_congr fun link _ => ?_
  cases graph.fits registry config link <;> simp

@[simp] theorem target?_nil (i slot : Nat) : graph.target? registry config [] i slot = none :=
  rfl

theorem accepts_iff {before : List Link} {link : Link} :
    graph.Accepts registry config before link ↔ graph.fits registry config link = true ∧
      graph.target? registry config before link.source link.slot = none := by
  rw [Accepts, target?_eq_none_iff]
  rfl

theorem target?_eq_some_iff {links : List Link} {i slot j : Nat} :
    graph.target? registry config links i slot = some j ↔
      ∃ before link after, links = before ++ link :: after ∧
        graph.Accepts registry config before link ∧ link.output = (i, slot) ∧
        link.destination = j := by
  simp only [target?, Option.map_eq_some_iff, List.find?_eq_some_iff_append, Bool.and_eq_true,
    beq_iff_eq, Bool.not_eq_true', Bool.and_eq_false_iff, beq_eq_false_iff_ne]
  constructor
  · rintro ⟨link, ⟨⟨houtput, hfits⟩, before, after, hlinks, hfirst⟩, hdestination⟩
    refine ⟨before, link, after, hlinks, ⟨hfits, fun other hother hfits' heq => ?_⟩, houtput,
      hdestination⟩
    rcases hfirst other hother with hne | hnot
    · exact hne (heq.trans houtput)
    · rw [hfits'] at hnot
      contradiction
  · rintro ⟨before, link, after, hlinks, ⟨hfits, hfirst⟩, houtput, hdestination⟩
    refine ⟨link, ⟨⟨houtput, hfits⟩, before, after, hlinks, fun other hother => ?_⟩, hdestination⟩
    cases hfits' : graph.fits registry config other with
    | false => exact .inr rfl
    | true => exact .inl fun heq => hfirst other hother hfits' (heq.trans houtput.symm)

theorem target?_append (before : List Link) (link : Link) (i slot : Nat) :
    graph.target? registry config (before ++ [link]) i slot =
      (graph.target? registry config before i slot).or
        (if link.output = (i, slot) ∧ graph.fits registry config link = true then
          some link.destination else none) := by
  simp only [target?, List.find?_append, List.find?_singleton]
  cases before.find? _ with
  | some first => rfl
  | none =>
      simp only [Option.none_or, Option.map_none, Bool.and_eq_true, beq_iff_eq]
      split <;> rfl

theorem target?_append_of_accepts {before : List Link} {link : Link}
    (h : graph.Accepts registry config before link) (i slot : Nat) :
    graph.target? registry config (before ++ [link]) i slot =
      if link.output = (i, slot) then some link.destination
      else graph.target? registry config before i slot := by
  obtain ⟨hfits, hfree⟩ := accepts_iff.1 h
  rw [target?_append]
  by_cases houtput : link.output = (i, slot)
  · obtain ⟨rfl, rfl⟩ := Prod.mk.inj houtput
    rw [hfree, if_pos ⟨houtput, hfits⟩, if_pos houtput, Option.none_or]
  · rw [if_neg (not_and_of_not_left _ houtput), if_neg houtput, Option.or_none]

theorem target?_append_of_not_accepts {before : List Link} {link : Link}
    (h : ¬graph.Accepts registry config before link) (i slot : Nat) :
    graph.target? registry config (before ++ [link]) i slot =
      graph.target? registry config before i slot := by
  rw [target?_append]
  split
  · rename_i hboth
    obtain ⟨houtput, hfits⟩ := hboth
    obtain ⟨rfl, rfl⟩ := Prod.mk.inj houtput
    cases htaken : graph.target? registry config before link.source link.slot with
    | none => exact absurd (accepts_iff.2 ⟨hfits, htaken⟩) h
    | some first => rfl
  · exact Option.or_none

theorem wiredNode_append_of_not_accepts {before : List Link} {link : Link}
    (h : ¬graph.Accepts registry config before link) :
    graph.wiredNode registry config (before ++ [link]) =
      graph.wiredNode registry config before := by
  funext i node
  simp only [wiredNode, funext (target?_append_of_not_accepts h i)]

/-! ## One link -/

theorem getElem?_wiring (event : String) (links : List Link) (i : Nat) :
    (graph.wiring registry config event links).nodes[i]? =
      graph.nodes[i]?.map (graph.wiredNode registry config links i) :=
  List.getElem?_mapIdx

theorem linkReports_append (event : String) (before links more : List Link) :
    graph.linkReports registry config event before (links ++ more) =
      graph.linkReports registry config event before links ++
        graph.linkReports registry config event (before ++ links) more := by
  induction links generalizing before with
  | nil => simp [linkReports]
  | cons link rest ih => simp [linkReports, ih]

theorem linkReports_eq_nil_iff {event : String} {before links : List Link} :
    graph.linkReports registry config event before links = [] ↔
      ∀ placed link after, links = placed ++ link :: after →
        graph.linkReport? registry config event (before ++ placed) link = none := by
  constructor
  · rintro h placed link after rfl
    rw [linkReports_append, List.append_eq_nil_iff, linkReports, List.append_eq_nil_iff,
      Option.toList_eq_nil_iff] at h
    exact h.2.1
  · intro h
    induction links generalizing before with
    | nil => rfl
    | cons link rest ih =>
        have hlink := h [] link rest rfl
        rw [List.append_nil] at hlink
        rw [linkReports, hlink, Option.toList_none, List.nil_append]
        refine ih fun placed other after hrest => ?_
        rw [List.append_assoc]
        exact h (link :: placed) other after (by rw [hrest, List.cons_append])

theorem linkReport?_eq_none_iff {event : String} {before : List Link} {link : Link} :
    graph.linkReport? registry config event before link = none ↔
      graph.Accepts registry config before link ∨ graph.dangles registry config link = true := by
  rw [accepts_iff, fits_iff]
  simp only [linkReport?, dangles, Bool.and_eq_true, decide_eq_true_eq]
  cases hnode : graph.nodes[link.source]? with
  | none =>
      have hout := List.getElem?_eq_none_iff.1 hnode
      simp [hout, outputs?_of_length_le hout, fault?_of_length_le hout]
  | some node =>
      have hin := Nat.not_le.2 (List.getElem?_eq_some_iff.1 hnode).1
      rw [if_neg hin]
      by_cases hdestination : graph.nodes.length ≤ link.destination
      · simp [hdestination, Nat.not_lt.2 hdestination]
      · rw [if_neg hdestination]
        cases hbound : buildNode registry config node with
        | error reason =>
            simp [outputs?_of_error hnode hbound, fault?_of_error hnode hbound,
              Nat.not_le.1 hdestination]
        | ok ready =>
            by_cases hslot : ready.successors.length ≤ link.slot
            · simp [outputs?_of_ok hnode hbound, fault?_of_ok hnode hbound, hslot,
                Nat.not_lt.2 hslot]
            · simp [outputs?_of_ok hnode hbound, fault?_of_ok hnode hbound, hslot,
                Nat.not_le.1 hslot, Nat.not_le.1 hdestination]

theorem not_accepts_of_dangles {before : List Link} {link : Link}
    (h : graph.dangles registry config link = true) :
    ¬graph.Accepts registry config before link := by
  intro haccepts
  obtain ⟨-, count, hcount, -⟩ := fits_iff.1 haccepts.1
  simp only [dangles, Bool.and_eq_true, Option.isSome_iff_exists] at h
  obtain ⟨-, reason, hreason⟩ := h
  unfold outputs? at hcount
  unfold fault? at hreason
  cases hnode : graph.nodes[link.source]? with
  | none => simp [hnode] at hcount
  | some node => cases hbound : buildNode registry config node <;> simp_all

theorem wiring_append_of_not_accepts {before : List Link} {link : Link}
    (h : ¬graph.Accepts registry config before link) (event : String) :
    graph.wiring registry config event (before ++ [link]) =
      { graph.wiring registry config event before with
        fromInert := (graph.wiring registry config event before).fromInert ++
          if graph.dangles registry config link then [link.destination] else []
        diagnostics := (graph.wiring registry config event before).diagnostics ++
          (graph.linkReport? registry config event before link).toList } := by
  simp only [wiring, wiredNode_append_of_not_accepts h, linkReports_append, linkReports,
    List.nil_append, List.append_nil, List.append_assoc, List.filter_append, List.map_append,
    List.filter_cons, List.filter_nil]
  split <;> rfl

theorem wiring_append_of_report {event : String} {before : List Link} {link : Link}
    {r : Diagnostic} (h : graph.linkReport? registry config event before link = some r) :
    graph.wiring registry config event (before ++ [link]) =
      (graph.wiring registry config event before).report r.event r.node r.reason := by
  have hneither : ¬(graph.Accepts registry config before link ∨
      graph.dangles registry config link = true) := by
    intro hneither
    have hnone : graph.linkReport? registry config event before link = none :=
      linkReport?_eq_none_iff.2 hneither
    rw [h] at hnone
    contradiction
  rw [not_or] at hneither
  rw [wiring_append_of_not_accepts hneither.1, if_neg hneither.2, h, List.append_nil]
  rfl

theorem wiring_append_of_dangles {before : List Link} {link : Link}
    (h : graph.dangles registry config link = true) (event : String) :
    graph.wiring registry config event (before ++ [link]) =
      { graph.wiring registry config event before with
        fromInert := (graph.wiring registry config event before).fromInert ++
          [link.destination] } := by
  rw [wiring_append_of_not_accepts (not_accepts_of_dangles h), if_pos h,
    linkReport?_eq_none_iff.2 (.inr h), Option.toList_none, List.append_nil]

theorem wiredNode_of_ok {links : List Link} {i : Nat} {node : Node} {ready : ReadyNode}
    (hready : buildNode registry config node = .ok ready) :
    graph.wiredNode registry config links i node = .ready { ready with
      successors := (List.range ready.successors.length).map
        (graph.target? registry config links i) } := by
  simp only [wiredNode, hready]

theorem table_append_of_accepts {before : List Link} {link : Link}
    (h : graph.Accepts registry config before link) (count : Nat) :
    (List.range count).map (graph.target? registry config (before ++ [link]) link.source) =
      ((List.range count).map (graph.target? registry config before link.source)).set link.slot
        (some link.destination) := by
  refine List.ext_getElem (by simp) fun slot _ _ => ?_
  simp only [List.getElem_map, List.getElem_range, List.getElem_set,
    target?_append_of_accepts h, Link.output, Prod.mk.injEq, true_and]

theorem wiredNode_append_of_ne {before : List Link} {link : Link}
    (h : graph.Accepts registry config before link) {i : Nat} (hi : link.source ≠ i) :
    graph.wiredNode registry config (before ++ [link]) i =
      graph.wiredNode registry config before i := by
  have hsame : graph.target? registry config (before ++ [link]) i =
      graph.target? registry config before i := by
    funext slot
    rw [target?_append_of_accepts h, if_neg]
    intro houtput
    exact hi (Prod.mk.inj houtput).1
  funext node
  simp only [wiredNode, hsame]

theorem wiring_append_of_accepts {before : List Link} {link : Link} {node : Node}
    {ready : ReadyNode} (hnode : graph.nodes[link.source]? = some node)
    (hready : buildNode registry config node = .ok ready)
    (h : graph.Accepts registry config before link) (event : String) :
    graph.wiring registry config event (before ++ [link]) =
      { graph.wiring registry config event before with
        nodes := (graph.wiring registry config event before).nodes.set link.source
          (.ready { ready with
            successors := ((List.range ready.successors.length).map
              (graph.target? registry config before link.source)).set link.slot
                (some link.destination) }) } := by
  have hdangles : graph.dangles registry config link = false :=
    Bool.eq_false_iff.2 fun hdangles => not_accepts_of_dangles hdangles h
  have hnodes : graph.nodes.mapIdx (graph.wiredNode registry config (before ++ [link])) =
      (graph.nodes.mapIdx (graph.wiredNode registry config before)).set link.source
        (.ready { ready with
          successors := ((List.range ready.successors.length).map
            (graph.target? registry config before link.source)).set link.slot
              (some link.destination) }) := by
    have hin := (List.getElem?_eq_some_iff.1 hnode).1
    refine List.ext_getElem? fun i => ?_
    by_cases hi : link.source = i
    · subst hi
      rw [List.getElem?_set_self (by simpa using hin), List.getElem?_mapIdx, hnode,
        Option.map_some, wiredNode_of_ok hready, table_append_of_accepts h]
    · rw [List.getElem?_set_ne hi, List.getElem?_mapIdx, List.getElem?_mapIdx,
        wiredNode_append_of_ne h hi]
  simp only [wiring, hnodes, linkReports_append, linkReports, List.nil_append,
    linkReport?_eq_none_iff.2 (.inl h), Option.toList_none, List.append_nil,
    List.filter_append, List.filter_singleton, hdangles, cond_false]

theorem place_wiring (event : String) (before : List Link) (link : Link) :
    (graph.wiring registry config event before).place event link =
      graph.wiring registry config event (before ++ [link]) := by
  have hlength : (graph.wiring registry config event before).nodes.length = graph.nodes.length :=
    List.length_mapIdx
  unfold Wiring.place
  rw [getElem?_wiring, hlength]
  cases hnode : graph.nodes[link.source]? with
  | none =>
      have hout := List.getElem?_eq_none_iff.1 hnode
      have hreport : graph.linkReport? registry config event before link =
          some ⟨event, none, .linkOutOfRange link.source⟩ := by
        simp [linkReport?, hout]
      rw [wiring_append_of_report hreport]
      rfl
  | some node =>
      have hin := Nat.not_le.2 (List.getElem?_eq_some_iff.1 hnode).1
      simp only [Option.map_some]
      by_cases hdestination : graph.nodes.length ≤ link.destination
      · have hreport : graph.linkReport? registry config event before link =
            some ⟨event, some link.source, .linkOutOfRange link.destination⟩ := by
          simp [linkReport?, hin, hdestination]
        rw [if_pos hdestination, wiring_append_of_report hreport]
      · rw [if_neg hdestination]
        cases hready : buildNode registry config node with
        | error reason =>
            have hdangles : graph.dangles registry config link = true := by
              simp [dangles, fault?_of_error hnode hready, Nat.not_le.1 hdestination]
            rw [wiring_append_of_dangles hdangles]
            simp only [wiredNode, hready]
        | ok ready =>
            have houtputs := outputs?_of_ok hnode hready
            simp only [wiredNode_of_ok hready, List.getElem?_map]
            by_cases hslot : ready.successors.length ≤ link.slot
            · have hreport : graph.linkReport? registry config event before link =
                  some ⟨event, some link.source,
                    .slotOutOfRange link.slot ready.successors.length⟩ := by
                simp [linkReport?, hin, hdestination, houtputs, hslot]
              rw [wiring_append_of_report hreport, List.getElem?_eq_none (by simpa using hslot)]
              simp
            · have hslot := Nat.not_le.1 hslot
              rw [List.getElem?_range hslot, Option.map_some]
              cases htarget : graph.target? registry config before link.source link.slot with
              | some first =>
                  have hreport : graph.linkReport? registry config event before link =
                      some ⟨event, some link.source, .slotAlreadyLinked link.slot⟩ := by
                    simp [linkReport?, hin, hdestination, houtputs, hslot, htarget]
                  rw [wiring_append_of_report hreport]
              | none =>
                  have hfits : graph.fits registry config link = true :=
                    fits_iff.2 ⟨Nat.not_le.1 hdestination, _, houtputs, hslot⟩
                  rw [wiring_append_of_accepts hnode hready (accepts_iff.2 ⟨hfits, htarget⟩)]

theorem foldl_place_wiring (event : String) (before links : List Link) :
    links.foldl (Wiring.place event) (graph.wiring registry config event before) =
      graph.wiring registry config event (before ++ links) := by
  induction links generalizing before with
  | nil => rw [List.foldl_nil, List.append_nil]
  | cons link rest ih => rw [List.foldl_cons, place_wiring, ih, List.append_assoc,
      List.singleton_append]

theorem wiredNode_nil (i : Nat) (node : Node) :
    graph.wiredNode registry config [] i node = builtNode (buildNode registry config node) := by
  cases hready : buildNode registry config node with
  | error reason => simp only [wiredNode, hready, builtNode]
  | ok ready =>
      obtain ⟨c, -, hsuccessors⟩ := buildNode_successors hready
      have htable : (List.range ready.successors.length).map
          (graph.target? registry config [] i) = ready.successors := by
        rw [hsuccessors, List.eq_replicate_iff]
        simp [target?]
      rw [wiredNode_of_ok hready, htable, builtNode]

theorem wire_eq (registry : Registry) (config : RuntimeConfig) (event : String)
    (graph : EventGraph) :
    wire registry config event graph = graph.wiring registry config event graph.links := by
  have hbuilt : (graph.nodes.map (buildNode registry config)).map builtNode =
      graph.nodes.mapIdx (graph.wiredNode registry config []) := by
    refine List.ext_getElem? fun i => ?_
    simp only [List.getElem?_map, List.getElem?_mapIdx, Option.map_map]
    congr 1
    funext node
    exact (wiredNode_nil i node).symm
  have hstart : (⟨(graph.nodes.map (buildNode registry config)).map builtNode, [],
      nodeDiagnostics event 0 (graph.nodes.map (buildNode registry config))⟩ : Wiring) =
        graph.wiring registry config event [] := by
    rw [hbuilt, wiring, linkReports, List.append_nil]
    rfl
  simp only [wire]
  rw [hstart, foldl_place_wiring, List.nil_append]

theorem target?_of_outputs? {links : List Link} {i slot : Nat}
    (h : ∀ count, graph.outputs? registry config i = some count → count ≤ slot) :
    graph.target? registry config links i slot = none := by
  refine target?_eq_none_iff.2 fun link _ hfits houtput => ?_
  obtain ⟨rfl, rfl⟩ := Prod.mk.inj houtput
  obtain ⟨-, count, hcount, hslot⟩ := fits_iff.1 hfits
  exact Nat.not_lt.2 (h count hcount) hslot

theorem outputAt_wire (registry : Registry) (config : RuntimeConfig) (event : String)
    (graph : EventGraph) (i slot : Nat) :
    outputAt (wire registry config event graph).nodes i slot =
      graph.target? registry config graph.links i slot := by
  rw [wire_eq, outputAt, getElem?_wiring]
  cases hnode : graph.nodes[i]? with
  | none =>
      rw [target?_of_outputs?]
      · rfl
      · simp [outputs?, hnode]
  | some node =>
      cases hready : buildNode registry config node with
      | error reason =>
          rw [target?_of_outputs?]
          · simp [wiredNode, hready, ProgramNode.ready?]
          · simp [outputs?_of_error hnode hready]
      | ok ready =>
          have houtputs := outputs?_of_ok hnode hready
          simp only [Option.map_some, wiredNode_of_ok hready, Option.bind_some,
            ProgramNode.ready?, List.getElem?_map]
          by_cases hslot : slot < ready.successors.length
          · rw [List.getElem?_range hslot]
            rfl
          · rw [target?_of_outputs? (by simpa [houtputs] using hslot),
              List.getElem?_eq_none (by simpa using hslot)]
            rfl

theorem outputAt_wire_eq_some_iff (registry : Registry) (config : RuntimeConfig) (event : String)
    (graph : EventGraph) {i slot j : Nat} :
    outputAt (wire registry config event graph).nodes i slot = some j ↔
      ∃ before after, graph.links = before ++ ⟨i, j, slot⟩ :: after ∧
        graph.Accepts registry config before ⟨i, j, slot⟩ := by
  rw [outputAt_wire, target?_eq_some_iff]
  constructor
  · rintro ⟨before, link, after, hlinks, haccepts, houtput, rfl⟩
    obtain ⟨rfl, rfl⟩ := Prod.mk.inj houtput
    exact ⟨before, after, hlinks, haccepts⟩
  · rintro ⟨before, after, hlinks, haccepts⟩
    exact ⟨before, _, after, hlinks, haccepts, rfl, rfl⟩

end EventGraph

theorem buildEvent_linked {registry : Registry} {config : RuntimeConfig} {event : String}
    {graph : EventGraph} {start : Option Nat} {i slot j : Nat}
    (hnext : (buildEvent registry config event graph start).1.successor? i slot = some j) :
    (buildEvent registry config event graph start).1.Linked graph.links i j := by
  obtain ⟨node, hnode, hslot⟩ := Option.bind_eq_some_iff.1 hnext
  have houtput : outputAt (wire registry config event graph).nodes i slot = some j :=
    Option.bind_eq_some_iff.2 ⟨node, ready?_of_node?_buildEvent hnode, hslot⟩
  obtain ⟨before, after, hlinks, -⟩ :=
    (EventGraph.outputAt_wire_eq_some_iff registry config event graph).1 houtput
  exact ⟨⟨i, j, slot⟩, by rw [hlinks]; simp, rfl, rfl, hnext⟩

namespace EventGraph

variable {registry : Registry} {config : RuntimeConfig} {graph : EventGraph}

/-! ## The order of links -/

theorem stranded_congr (nodes : List ProgramNode) {fromInert other : List Nat}
    (hsame : ∀ i, i ∈ fromInert ↔ i ∈ other) (start : Option Nat) :
    stranded nodes fromInert start = stranded nodes other start := by
  have hroots : roots nodes fromInert = roots nodes other := by
    refine List.filter_congr fun i _ => ?_
    simp [hsame]
  have hbehind : ∀ i, (reachable nodes fromInert).contains i =
      (reachable nodes other).contains i := by
    intro i
    rw [Bool.eq_iff_iff, List.contains_iff_mem, List.contains_iff_mem, mem_reachable_iff,
      mem_reachable_iff]
    simp only [hsame]
  simp only [stranded, hroots, hbehind]

section Perm

variable {links other : List Link}

theorem target?_of_nodup (hnodup : (links.map Link.output).Nodup) {i slot j : Nat} :
    graph.target? registry config links i slot = some j ↔
      ∃ link ∈ links, graph.fits registry config link = true ∧ link.output = (i, slot) ∧
        link.destination = j := by
  constructor
  · intro h
    obtain ⟨before, link, after, rfl, haccepts, hlink⟩ := target?_eq_some_iff.1 h
    exact ⟨link, by simp, haccepts.1, hlink⟩
  · rintro ⟨link, hlink, hfits, houtput, rfl⟩
    cases htarget : graph.target? registry config links i slot with
    | none => exact absurd houtput (target?_eq_none_iff.1 htarget link hlink hfits)
    | some first =>
        obtain ⟨before, link', after, rfl, -, houtput', rfl⟩ := target?_eq_some_iff.1 htarget
        have hsame : link' = link :=
          List.inj_on_of_nodup_map hnodup (by simp) hlink (houtput'.trans houtput.symm)
        rw [hsame]

theorem target?_perm (hperm : other.Perm links) (hnodup : (links.map Link.output).Nodup) :
    graph.target? registry config other = graph.target? registry config links := by
  have hnodup' := (hperm.map Link.output).nodup_iff.2 hnodup
  funext i slot
  refine Option.ext fun j => ?_
  rw [target?_of_nodup hnodup, target?_of_nodup hnodup']
  simp only [hperm.mem_iff]

theorem linkReports_of_nodup (event : String) {before : List Link}
    (hnodup : ((before ++ links).map Link.output).Nodup) :
    graph.linkReports registry config event before links =
      links.filterMap (graph.linkReport? registry config event []) := by
  induction links generalizing before with
  | nil => rfl
  | cons link rest ih =>
      have hfree : graph.target? registry config before link.source link.slot = none := by
        refine target?_eq_none_iff.2 fun first hfirst _ heq => ?_
        rw [List.map_append, List.nodup_append] at hnodup
        exact hnodup.2.2 _ (List.mem_map_of_mem hfirst) _
          (List.mem_map_of_mem List.mem_cons_self) heq
      have hreport : graph.linkReport? registry config event before link =
          graph.linkReport? registry config event [] link := by
        rw [linkReport?, linkReport?, hfree, target?_nil]
      rw [linkReports, ih (by simpa using hnodup), hreport, List.filterMap_cons]
      cases graph.linkReport? registry config event [] link <;> rfl

theorem linkReports_withLinks (event : String) (before : List Link) :
    linkReports registry config { graph with links := other } event before links =
      graph.linkReports registry config event before links := by
  induction links generalizing before with
  | nil => rfl
  | cons link rest ih =>
      rw [linkReports, linkReports, ih]
      rfl

theorem wire_perm (registry : Registry) (config : RuntimeConfig) (event : String)
    (hperm : other.Perm graph.links) (hnodup : (graph.links.map Link.output).Nodup) :
    let wired := wire registry config event graph
    let wired' := wire registry config event { graph with links := other }
    wired'.nodes = wired.nodes ∧ wired'.fromInert.Perm wired.fromInert ∧
      wired'.diagnostics.Perm wired.diagnostics := by
  intro wired wired'
  have hnodup' := (hperm.map Link.output).nodup_iff.2 hnodup
  have hwired : wired = graph.wiring registry config event graph.links :=
    wire_eq registry config event graph
  have hwired' : wired' = graph.wiring registry config event other := by
    refine (wire_eq registry config event { graph with links := other }).trans ?_
    simp only [wiring, linkReports_withLinks]
    rfl
  rw [hwired, hwired']
  refine ⟨?_, (hperm.filter _).map _, List.Perm.append_left _ ?_⟩
  · have hsame : graph.wiredNode registry config other =
        graph.wiredNode registry config graph.links := by
      funext i node
      simp only [wiredNode, target?_perm hperm hnodup]
    simp only [wiring, hsame]
  · rw [linkReports_of_nodup event (by simpa using hnodup'),
      linkReports_of_nodup event (by simpa using hnodup)]
    exact hperm.filterMap _

end Perm

/-! ## What reports are about -/

theorem linkReport?_subject {event : String} {before : List Link} {link : Link} {r : Diagnostic}
    (h : graph.linkReport? registry config event before link = some r) :
    r.event = event ∧ r.reason.subject = .link := by
  unfold linkReport? at h
  split at h
  · cases h
    exact ⟨rfl, rfl⟩
  · split at h
    · cases h
      exact ⟨rfl, rfl⟩
    · obtain ⟨count, -, h⟩ := Option.bind_eq_some_iff.1 h
      split at h
      · cases h
        exact ⟨rfl, rfl⟩
      · split at h
        · cases h
          exact ⟨rfl, rfl⟩
        · contradiction

theorem linkReports_subject {event : String} {before links : List Link} {r : Diagnostic}
    (h : r ∈ graph.linkReports registry config event before links) :
    r.event = event ∧ r.reason.subject = .link := by
  induction links generalizing before with
  | nil => contradiction
  | cons link rest ih =>
      rcases List.mem_append.1 h with h | h
      · exact linkReport?_subject (Option.mem_toList.1 h)
      · exact ih h

/-! ## Events -/

section Event

variable (registry : Registry) (config : RuntimeConfig) (event : String) (graph : EventGraph)
  (start : Option Nat)

theorem linkReports_of_build :
    (buildEvent registry config event graph start).2.filter (·.reason.subject = .link) =
      graph.linkReports registry config event [] graph.links := by
  have hstart : (startDiagnostics event graph start).filter (·.reason.subject = .link) = [] := by
    refine List.filter_eq_nil_iff.2 fun r hr => ?_
    simp [(startDiagnostics_subject hr).2]
  have hnodes : (nodeDiagnostics event 0 (graph.nodes.map (buildNode registry config))).filter
      (·.reason.subject = .link) = [] := by
    refine List.filter_eq_nil_iff.2 fun r hr => ?_
    simp [(nodeDiagnostics_subject hr).2]
  have hlinks : (graph.linkReports registry config event [] graph.links).filter
      (·.reason.subject = .link) = graph.linkReports registry config event [] graph.links := by
    refine List.filter_eq_self.2 fun r hr => ?_
    simp [(linkReports_subject hr).2]
  have hstranded : ∀ lost : List Nat,
      (lost.map fun i => (⟨event, some i, .unreachableThroughInert⟩ : Diagnostic)).filter
        (·.reason.subject = .link) = [] := by
    intro lost
    refine List.filter_eq_nil_iff.2 fun r hr => ?_
    obtain ⟨i, -, rfl⟩ := List.mem_map.1 hr
    simp [DiagnosticReason.subject]
  simp only [buildEvent, wire_eq, wiring, List.filter_append, hstart, hnodes, hlinks, hstranded,
    List.nil_append, List.append_nil]

theorem buildEvent_perm {links : List Link} (hperm : links.Perm graph.links)
    (hnodup : (graph.links.map Link.output).Nodup) :
    let built := buildEvent registry config event graph start
    let built' := buildEvent registry config event { graph with links } start
    built'.1 = built.1 ∧ built'.2.Perm built.2 := by
  obtain ⟨hnodes, hinert, hdiagnostics⟩ := wire_perm registry config event hperm hnodup
  have hlost := stranded_congr (wire registry config event graph).nodes
    (fun i => hinert.mem_iff) start
  simp only [buildEvent, hnodes, hlost]
  exact ⟨trivial, (hdiagnostics.append_left _).append_right _⟩

end Event

end EventGraph

/--
An output leads where the first link says that leaves by it and fits: its source can be bound
and has the output, and its destination is there.  The nodes that can still run when stranded
nodes have been made inert keep these outputs.  Every link that is not placed is reported, in
the order of the links, unless it dangles, leading from a node that cannot be bound to one that
is there; and where no two links leave by the same output, their order makes no difference to
the program nor, apart from their own order, to the reports.
-/
theorem buildEvent_places_links (registry : Registry) (config : RuntimeConfig) (event : String)
    (graph : EventGraph) (start : Option Nat) :
    let wired := wire registry config event graph
    let built := buildEvent registry config event graph start
    (∀ (i : Nat) node ready, graph.nodes[i]? = some node →
      buildNode registry config node = .ok ready →
      ∃ c, registry.get? ready.capability = some c ∧
        wired.nodes[i]? = some (.ready ⟨ready.capability, ready.params,
          (List.range c.descriptor.outputCount).map
            (graph.target? registry config graph.links i)⟩)) ∧
    (∀ i slot j, outputAt wired.nodes i slot = some j ↔
      ∃ before after, graph.links = before ++ ⟨i, j, slot⟩ :: after ∧
        graph.Accepts registry config before ⟨i, j, slot⟩) ∧
    (∀ i node, built.1.node? i = some node → wired.nodes[i]? = some (.ready node)) ∧
    built.2.filter (·.reason.subject = .link) =
      graph.linkReports registry config event [] graph.links ∧
    (∀ before link, graph.linkReport? registry config event before link = none ↔
      graph.Accepts registry config before link ∨ graph.dangles registry config link = true) ∧
    ∀ links, links.Perm graph.links → (graph.links.map Link.output).Nodup →
      let built' := buildEvent registry config event { graph with links } start
      built'.1 = built.1 ∧ built'.2.Perm built.2 := by
  intro wired built
  refine ⟨?_, ?_, ?_, EventGraph.linkReports_of_build registry config event graph start, ?_, ?_⟩
  · intro i node ready hnode hready
    obtain ⟨c, hc, hsuccessors⟩ := buildNode_successors hready
    have hcount : ready.successors.length = c.descriptor.outputCount := by
      rw [hsuccessors, List.length_replicate]
    refine ⟨c, hc, ?_⟩
    rw [show wired = _ from EventGraph.wire_eq registry config event graph,
      EventGraph.getElem?_wiring, hnode, Option.map_some, EventGraph.wiredNode_of_ok hready,
      hcount]
  · intro i slot j
    exact EventGraph.outputAt_wire_eq_some_iff registry config event graph
  · intro i node hnode
    obtain ⟨n, hn, hready⟩ := Option.bind_eq_some_iff.1 (ready?_of_node?_buildEvent hnode)
    cases n with
    | inert => contradiction
    | ready node' => rw [hn, Option.some.inj hready]
  · exact fun before link => EventGraph.linkReport?_eq_none_iff
  · exact fun links => EventGraph.buildEvent_perm registry config event graph start

end Nodeflow
