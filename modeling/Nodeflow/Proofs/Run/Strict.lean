import Nodeflow.Proofs.Program.Bounds
import Nodeflow.Proofs.Run.Execution

/-!
# Runs of built programs miss nothing

A run ends quietly where it finds no node at an index, or no capability at a number.  In a
program that was built neither ever happens: with both cases left without a result, every run
and every resumption still has one, and the same as before.
-/

namespace Nodeflow

/-! ## Runs without a result -/

/-- A run that has no result where a node or a capability is missing. -/
def execute? (registry : Registry) (config : RuntimeConfig) (className : String)
    (program : Program) : (left : Nat) → Store → Frame → (current : Option Nat) → Option Outcome
  | left, store, frame, current =>
    match current with
    | none => some ⟨store, [], .finished⟩
    | some index =>
      match program.nodes[index]? with
      | none => none
      | some .inert => some ⟨store, [], .finished⟩
      | some (.ready node) =>
        match left with
        | 0 => some ⟨store, [], .aborted (.stepBudgetExceeded config.stepBudget)⟩
        | left + 1 =>
          match registry.get? node.capability with
          | none => none
          | some capability =>
            let run := runNode config index node capability store frame.scope
            match run.verdict with
            | .abort e => some ⟨run.store, run.trace, .aborted e⟩
            | .panic => some ⟨run.store, run.trace, .panicked⟩
            | .park slot condition =>
              some ⟨run.store, run.trace ++ [.suspended frame.event index],
                .parked ⟨className, frame.next run, index, slot, condition⟩⟩
            | .advance slot =>
              (execute? registry config className program left run.store (frame.next run)
                (slot.bind (program.successor? index))).map (·.after run.trace)

def continueFrame? (registry : Registry) (config : RuntimeConfig) (graph : BoundGraph)
    (object : Object) (frame : Frame) (current : Option Nat) : Option Outcome :=
  let store := ⟨object, graph.vars⟩
  match graph.blueprint.events.find? frame.event with
  | none => some ⟨store, [], .finished⟩
  | some program =>
    execute? registry config graph.className program (config.stepBudget - frame.steps) store
      frame current

def runEvent? (registry : Registry) (config : RuntimeConfig) (graph : BoundGraph)
    (object : Object) (event : String) (args : EventArgs) : Option Outcome :=
  match graph.entry? event with
  | none => some ⟨⟨object, graph.vars⟩, [], .finished⟩
  | some start => continueFrame? registry config graph object (.start event args) (some start)

def resume? (registry : Registry) (config : RuntimeConfig) (graph : BoundGraph)
    (object : Object) (c : Continuation) : Option Outcome :=
  let next := c.slot.bind (graph.successor? c.frame.event c.node)
  (continueFrame? registry config graph object c.frame next).map
    (·.after [.resumed c.frame.event c.node])

/-! ## Runs of well-formed programs -/

theorem Program.inert_of_node?_eq_none {p : Program} {index : Nat} (hlt : index < p.nodes.length)
    (h : p.node? index = none) : p.nodes[index]? = some .inert := by
  unfold node? at h
  rw [List.getElem?_eq_getElem hlt] at h ⊢
  cases hnode : p.nodes[index] with
  | inert => rfl
  | ready node =>
      rw [hnode] at h
      contradiction

section Run

variable {registry : Registry} {config : RuntimeConfig} {program : Program}

theorem execute?_eq (hp : program.WellFormed registry) {className : String} {left : Nat}
    {store : Store} {frame : Frame} {current : Option Nat}
    (hcurrent : ∀ i, current = some i → i < program.nodes.length) :
    execute? registry config className program left store frame current =
      some (execute registry config className program left store frame current) := by
  revert hcurrent
  refine execute_induction (motive := fun left store frame current o =>
    (∀ i, current = some i → i < program.nodes.length) →
    execute? registry config className program left store frame current = some o)
    ?idle ?exhausted ?unregistered ?stop ?park ?advance left store frame current
  case idle =>
    intro left store frame current hidle hcurrent
    unfold execute?
    cases current with
    | none => rfl
    | some index => simp only [Program.inert_of_node?_eq_none (hcurrent index rfl) hidle]
  case exhausted =>
    intro store frame index node hnode _
    unfold execute?
    simp only [getElem?_of_ready? hnode]
  case unregistered =>
    intro left store frame index node hnode hmissing _
    have hready := List.mem_of_getElem? (getElem?_of_ready? hnode)
    obtain ⟨⟨capability, hcapability, -⟩, -⟩ := hp.nodes node hready
    rw [hmissing] at hcapability
    contradiction
  case stop =>
    intro left store frame index node capability run ending hnode hcapability hrun hstop _
    subst hrun
    rw [execute?]
    obtain ⟨error, hverdict, rfl⟩ | ⟨hverdict, rfl⟩ := Verdict.ending?_eq_some.1 hstop
    · simp only [getElem?_of_ready? hnode, hcapability, hverdict]
    · simp only [getElem?_of_ready? hnode, hcapability, hverdict]
  case park =>
    intro left store frame index node capability run slot condition hnode hcapability hrun
      hverdict _ _
    subst hrun
    rw [execute?]
    simp only [getElem?_of_ready? hnode, hcapability, hverdict]
  case advance =>
    intro left store frame index node capability run slot rest hnode hcapability hrun hverdict _
      ih _
    subst hrun
    have hnext : ∀ i, slot.bind (program.successor? index) = some i →
        i < program.nodes.length := by
      intro i hi
      obtain ⟨s, -, hsuccessor⟩ := Option.bind_eq_some_iff.1 hi
      exact hp.nodes.outputAt_lt hsuccessor
    rw [execute?]
    simp only [getElem?_of_ready? hnode, hcapability, hverdict, ih hnext, Option.map_some]

section Graph

variable {graph : BoundGraph}
  (hgraph : ∀ event program, graph.blueprint.events.find? event = some program →
    program.WellFormed registry)
include hgraph

theorem continueFrame?_eq (config : RuntimeConfig) (object : Object) (frame : Frame)
    (current : Option Nat)
    (hcurrent : ∀ program, graph.blueprint.events.find? frame.event = some program →
      ∀ i, current = some i → i < program.nodes.length) :
    continueFrame? registry config graph object frame current =
      some (continueFrame registry config graph object frame current) := by
  unfold continueFrame? continueFrame
  cases hprogram : graph.blueprint.events.find? frame.event with
  | none => rfl
  | some program => exact execute?_eq (hgraph _ program hprogram) (hcurrent program hprogram)

theorem runEvent?_eq (object : Object) (event : String) (args : EventArgs) :
    runEvent? registry config graph object event args =
      some (runEvent registry config graph object event args) := by
  unfold runEvent? runEvent
  cases hentry : graph.entry? event with
  | none => rfl
  | some start =>
      apply continueFrame?_eq hgraph
      intro program hprogram i hi
      have hprogram : graph.blueprint.events.find? event = some program := hprogram
      rw [BoundGraph.entry?, hprogram] at hentry
      cases hi
      exact entry?_lt hentry

theorem resume?_eq (object : Object) (c : Continuation) :
    resume? registry config graph object c = some (resume registry config graph object c) := by
  have hrest := continueFrame?_eq hgraph config object c.frame
    (c.slot.bind (graph.successor? c.frame.event c.node)) fun program hprogram i hi => by
      obtain ⟨slot, -, hsuccessor⟩ := Option.bind_eq_some_iff.1 hi
      rw [BoundGraph.successor?, hprogram] at hsuccessor
      exact (hgraph _ program hprogram).nodes.outputAt_lt hsuccessor
  simp only [resume?, hrest, Option.map_some]
  rfl

end Graph

end Run

/--
Building never reads or writes outside of a list of nodes, whatever numbers links and starts
name as nodes.  Each node that can run has a registered capability and a table with an entry
for each of its outputs, those that any result selects included; the entries and the entry of
each event are nodes of its program.  So no run of a built program and no resumption, whatever
it is given, comes to a node or a capability that is not there.
-/
theorem build_wellFormed (registry : Registry) (limits : RuntimeConfig) (d : GraphDefinition) :
    d.build? registry limits = some (d.build registry limits) ∧
      (∀ event program, (d.build registry limits).blueprint.events.find? event = some program →
        program.WellFormed registry) ∧
      ∀ (config : RuntimeConfig) (className : String) (owner : ObjectId) (vars : Variables)
        (object : Object),
        let graph : BoundGraph := ⟨className, owner, (d.build registry limits).blueprint, vars⟩
        (∀ event args, runEvent? registry config graph object event args =
          some (runEvent registry config graph object event args)) ∧
        ∀ c, resume? registry config graph object c =
          some (resume registry config graph object c) := by
  have hprograms : ∀ event program,
      (d.build registry limits).blueprint.events.find? event = some program →
        program.WellFormed registry := fun _ _ => wellFormed_build registry limits d
  refine ⟨d.build?_eq registry limits, hprograms, ?_⟩
  intro config className owner vars object graph
  have hgraph : ∀ event program, graph.blueprint.events.find? event = some program →
      program.WellFormed registry := hprograms
  exact ⟨runEvent?_eq hgraph object, resume?_eq hgraph object⟩

end Nodeflow
