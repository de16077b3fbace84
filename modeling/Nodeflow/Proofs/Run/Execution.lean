import Nodeflow.Run.Execution

/-!
# Executing node by node

The equations of `execute`, one for each way a run can go on, gathered into one induction
principle over runs.  From it follows that a run is only ever cut at a latent node of its
own program.
-/

namespace Nodeflow

def Frame.next (frame : Frame) (run : NodeRun) : Frame :=
  { frame with scope := run.scope, steps := frame.steps + 1 }

def Outcome.after (o : Outcome) (trace : List TraceEvent) : Outcome :=
  { o with trace := trace ++ o.trace }

/-- How a run ends at a node that it does not come past. -/
def Verdict.ending? : Verdict → Option Ending
  | .abort error => some (.aborted error)
  | .panic => some .panicked
  | .park _ _ => none
  | .advance _ => none

theorem Verdict.ending?_eq_some {v : Verdict} {ending : Ending} :
    v.ending? = some ending ↔
      (∃ error, v = .abort error ∧ ending = .aborted error) ∨ v = .panic ∧ ending = .panicked := by
  cases v <;> simp [ending?, eq_comm]

theorem Verdict.ending?_ne_parked (v : Verdict) (c : Continuation) :
    v.ending? ≠ some (.parked c) := by
  simp [ending?_eq_some]

section Execute

variable {registry : Registry} {config : RuntimeConfig} {className : String} {program : Program}
  {left index : Nat} {store : Store} {frame : Frame} {node : ReadyNode} {capability : Capability}

theorem execute_idle {current : Option Nat} (hidle : current.bind program.node? = none) :
    execute registry config className program left store frame current =
      ⟨store, [], .finished⟩ := by
  unfold execute
  cases current with
  | none => rfl
  | some index =>
      have hnode : program.node? index = none := hidle
      simp only [hnode]

theorem execute_exhausted (hnode : program.node? index = some node) :
    execute registry config className program 0 store frame (some index) =
      ⟨store, [], .aborted (.stepBudgetExceeded config.stepBudget)⟩ := by
  unfold execute
  simp only [hnode]

theorem execute_unregistered (hnode : program.node? index = some node)
    (hcapability : registry.get? node.capability = none) :
    execute registry config className program (left + 1) store frame (some index) =
      ⟨store, [], .finished⟩ := by
  unfold execute
  simp only [hnode, hcapability]

section Ready

variable (hnode : program.node? index = some node)
  (hcapability : registry.get? node.capability = some capability)
include hnode hcapability

theorem execute_stop {ending : Ending}
    (hstop : (runNode config index node capability store frame.scope).verdict.ending? =
      some ending) :
    execute registry config className program (left + 1) store frame (some index) =
      ⟨(runNode config index node capability store frame.scope).store,
        (runNode config index node capability store frame.scope).trace, ending⟩ := by
  rw [execute]
  obtain ⟨error, hverdict, rfl⟩ | ⟨hverdict, rfl⟩ := Verdict.ending?_eq_some.1 hstop
  · simp only [hnode, hcapability, hverdict]
  · simp only [hnode, hcapability, hverdict]

theorem execute_park {slot : Option Nat} {condition : Condition}
    (hverdict :
      (runNode config index node capability store frame.scope).verdict = .park slot condition) :
    execute registry config className program (left + 1) store frame (some index) =
      ⟨(runNode config index node capability store frame.scope).store,
        (runNode config index node capability store frame.scope).trace ++
          [.suspended frame.event index],
        .parked ⟨className, frame.next (runNode config index node capability store frame.scope),
          index, slot, condition⟩⟩ := by
  rw [execute]
  simp only [hnode, hcapability, hverdict, Frame.next]

theorem execute_advance {slot : Option Nat}
    (hverdict : (runNode config index node capability store frame.scope).verdict = .advance slot) :
    execute registry config className program (left + 1) store frame (some index) =
      (execute registry config className program left
        (runNode config index node capability store frame.scope).store
        (frame.next (runNode config index node capability store frame.scope))
        (slot.bind (program.successor? index))).after
          (runNode config index node capability store frame.scope).trace := by
  rw [execute]
  simp only [hnode, hcapability, hverdict, Frame.next, Outcome.after]

end Ready

/--
Induction over a run: where it stops, and how it goes on from a node that is executed.
Where the node waits, the induction also covers the rest that a resumption will run, in
whatever state it will find the store.
-/
theorem execute_induction {motive : Nat → Store → Frame → Option Nat → Outcome → Prop}
    (idle : ∀ left store frame current, current.bind program.node? = none →
      motive left store frame current ⟨store, [], .finished⟩)
    (exhausted : ∀ store frame index node, program.node? index = some node →
      motive 0 store frame (some index)
        ⟨store, [], .aborted (.stepBudgetExceeded config.stepBudget)⟩)
    (unregistered : ∀ left store frame index node, program.node? index = some node →
      registry.get? node.capability = none →
      motive (left + 1) store frame (some index) ⟨store, [], .finished⟩)
    (stop : ∀ left store frame index node capability run ending,
      program.node? index = some node → registry.get? node.capability = some capability →
      run = runNode config index node capability store frame.scope →
      run.verdict.ending? = some ending →
      motive (left + 1) store frame (some index) ⟨run.store, run.trace, ending⟩)
    (park : ∀ left store frame index node capability run slot condition,
      program.node? index = some node → registry.get? node.capability = some capability →
      run = runNode config index node capability store frame.scope →
      run.verdict = .park slot condition →
      (∀ found, motive left found (frame.next run) (slot.bind (program.successor? index))
        (execute registry config className program left found (frame.next run)
          (slot.bind (program.successor? index)))) →
      motive (left + 1) store frame (some index)
        ⟨run.store, run.trace ++ [.suspended frame.event index],
          .parked ⟨className, frame.next run, index, slot, condition⟩⟩)
    (advance : ∀ left store frame index node capability run slot rest,
      program.node? index = some node → registry.get? node.capability = some capability →
      run = runNode config index node capability store frame.scope →
      run.verdict = .advance slot →
      rest = execute registry config className program left run.store (frame.next run)
        (slot.bind (program.successor? index)) →
      motive left run.store (frame.next run) (slot.bind (program.successor? index)) rest →
      motive (left + 1) store frame (some index) (rest.after run.trace))
    (left : Nat) (store : Store) (frame : Frame) (current : Option Nat) :
    motive left store frame current
      (execute registry config className program left store frame current) := by
  induction left generalizing store frame current with
  | zero =>
      cases hnode : current.bind program.node? with
      | none =>
          rw [execute_idle hnode]
          exact idle 0 store frame current hnode
      | some node =>
          obtain ⟨index, rfl, hnode⟩ := Option.bind_eq_some_iff.1 hnode
          rw [execute_exhausted hnode]
          exact exhausted store frame index node hnode
  | succ left ih =>
      cases hnode : current.bind program.node? with
      | none =>
          rw [execute_idle hnode]
          exact idle (left + 1) store frame current hnode
      | some node =>
          obtain ⟨index, rfl, hnode⟩ := Option.bind_eq_some_iff.1 hnode
          cases hcapability : registry.get? node.capability with
          | none =>
              rw [execute_unregistered hnode hcapability]
              exact unregistered left store frame index node hnode hcapability
          | some capability =>
              have hstop : ∀ ending, (runNode config index node capability store
                  frame.scope).verdict.ending? = some ending →
                  motive (left + 1) store frame (some index) (execute registry config className
                    program (left + 1) store frame (some index)) := by
                intro ending hstop
                rw [execute_stop hnode hcapability hstop]
                exact stop left store frame index node capability _ ending hnode hcapability rfl
                  hstop
              cases hverdict :
                  (runNode config index node capability store frame.scope).verdict with
              | abort error => exact hstop (.aborted error) (hverdict ▸ rfl)
              | panic => exact hstop .panicked (hverdict ▸ rfl)
              | park slot condition =>
                  rw [execute_park hnode hcapability hverdict]
                  exact park left store frame index node capability _ slot condition hnode
                    hcapability rfl hverdict fun found => ih found _ _
              | advance slot =>
                  rw [execute_advance hnode hcapability hverdict]
                  exact advance left store frame index node capability _ slot _ hnode
                    hcapability rfl hverdict rfl (ih _ _ _)

end Execute

/-! ## What a node keeps -/

def callContext (capability : Capability) (store : Store) (scope : LocalScope)
    (args : List (String × Value)) : CallContext :=
  ⟨capability.descriptor.id, args,
    if capability.descriptor.method then some store.object else none, scope, store.vars, []⟩

theorem callNode_eq (index : Nat) (capability : Capability) (store : Store) (scope : LocalScope)
    (args : List (String × Value)) :
    callNode index capability store scope args =
      let call := capability.invoke.run.run (callContext capability store scope args)
      { store := ⟨store.object.after capability.descriptor call.2.owner, call.2.vars⟩
        scope := call.2.scope
        trace := call.2.printed.map .printed
        verdict := verdictOf index capability.descriptor call.1 } := rfl

theorem verdictOf_park {index : Nat} {d : Descriptor} {result : Except CapabilityError Invocation}
    {slot : Option Nat} {condition : Condition}
    (hverdict : verdictOf index d result = .park slot condition) :
    d.latent = true ∧ ∀ s, slot = some s → s < d.outputCount := by
  unfold verdictOf at hverdict
  split at hverdict
  · contradiction
  · contradiction
  all_goals
    split at hverdict
    · rename_i hlatent
      cases hverdict
      exact ⟨hlatent, fun s hs => Descriptor.selectSlot_lt hs⟩
    · contradiction

theorem runNode_park {config : RuntimeConfig} {index : Nat} {node : ReadyNode}
    {capability : Capability} {store : Store} {scope : LocalScope} {slot : Option Nat}
    {condition : Condition}
    (hverdict :
      (runNode config index node capability store scope).verdict = .park slot condition) :
    capability.descriptor.latent = true ∧
      ∀ s, slot = some s → s < capability.descriptor.outputCount := by
  simp only [runNode] at hverdict
  split at hverdict
  · contradiction
  · exact verdictOf_park hverdict

theorem arguments_congr {config config' : RuntimeConfig}
    (h : config'.maxOperations = config.maxOperations) (env : Environment)
    (specs : List ParamSpec) (params : List BoundParam) :
    arguments config' env specs params = arguments config env specs params := by
  induction specs generalizing params with
  | nil => rfl
  | cons spec specs ih =>
      cases params with
      | nil => rfl
      | cons param params =>
          have hvalue : param.value config' env spec = param.value config env spec := by
            cases param with
            | literal v => rfl
            | expression e => simp only [BoundParam.value, Expression.value, h]
          simp only [arguments, hvalue, ih]

/-! ## What a node shows -/

def TraceEvent.entered? : TraceEvent → Option Nat
  | .entered index => some index
  | .printed _ => none
  | .suspended _ _ => none
  | .resumed _ _ => none

theorem runNode_entered (config : RuntimeConfig) (index : Nat) (node : ReadyNode)
    (capability : Capability) (store : Store) (scope : LocalScope) :
    (runNode config index node capability store scope).trace.filterMap TraceEvent.entered? =
      if config.traceNodes then [index] else [] := by
  have hentered : (if config.traceNodes then [TraceEvent.entered index] else []).filterMap
      TraceEvent.entered? = if config.traceNodes then [index] else [] := by
    split <;> rfl
  have hprinted : ∀ lines : List String,
      (lines.map TraceEvent.printed).filterMap TraceEvent.entered? = [] := by
    intro lines
    induction lines with
    | nil => rfl
    | cons line lines ih => exact ih
  simp only [runNode]
  split
  · exact hentered
  · rw [List.filterMap_append, hentered]
    exact (congrArg _ (hprinted _)).trans (List.append_nil _)

def TraceEvent.isCut : TraceEvent → Bool
  | .suspended _ _ => true
  | .resumed _ _ => true
  | .entered _ => false
  | .printed _ => false

theorem runNode_isCut {config : RuntimeConfig} {index : Nat} {node : ReadyNode}
    {capability : Capability} {store : Store} {scope : LocalScope} (e : TraceEvent)
    (he : e ∈ (runNode config index node capability store scope).trace) : e.isCut = false := by
  have hentered : ∀ e ∈ (if config.traceNodes then [TraceEvent.entered index] else []),
      e.isCut = false := by
    split <;> simp [TraceEvent.isCut]
  simp only [runNode] at he
  split at he
  · exact hentered e he
  · rcases List.mem_append.1 he with he | he
    · exact hentered e he
    · obtain ⟨line, -, rfl⟩ := List.mem_map.1 he
      rfl

/-! ## What a run keeps -/

def Continuation.Within (c : Continuation) (registry : Registry) (program : Program) : Prop :=
  ∃ node capability, program.node? c.node = some node ∧
    registry.get? node.capability = some capability ∧ capability.descriptor.latent = true ∧
    ∀ slot, c.slot = some slot → slot < capability.descriptor.outputCount

theorem execute_parked {registry : Registry} {config : RuntimeConfig} {className : String}
    {program : Program} {left : Nat} {store : Store} {frame : Frame} {current : Option Nat}
    {c : Continuation}
    (hparked : (execute registry config className program left store frame current).ending =
      .parked c) :
    c.className = className ∧ c.frame.event = frame.event ∧ c.Within registry program := by
  revert hparked
  refine execute_induction (motive := fun _ _ frame _ o => o.ending = .parked c →
    c.className = className ∧ c.frame.event = frame.event ∧ c.Within registry program)
    ?idle ?exhausted ?unregistered ?stop ?park ?advance left store frame current
  case idle => intros; contradiction
  case exhausted => intros; contradiction
  case unregistered => intros; contradiction
  case stop =>
    rintro left store frame index node capability run ending - - - hstop ⟨⟩
    exact absurd hstop (Verdict.ending?_ne_parked _ _)
  case park =>
    rintro left store frame index node capability run slot condition hnode hcapability rfl
      hverdict - ⟨⟩
    exact ⟨rfl, rfl, node, capability, hnode, hcapability, runNode_park hverdict⟩
  case advance =>
    rintro left store frame index node capability run slot rest - - - - - ih hparked
    exact ih hparked

/-! ## Starting and resuming -/

theorem runEvent_eq {registry : Registry} {config : RuntimeConfig} {graph : BoundGraph}
    {program : Program} {object : Object} {event : String} {args : EventArgs}
    (hprogram : graph.blueprint.events.find? event = some program) :
    runEvent registry config graph object event args =
      execute registry config graph.className program config.stepBudget ⟨object, graph.vars⟩
        (.start event args) program.entry? := by
  have hentry : graph.entry? event = program.entry? := by
    simp [ BoundGraph.entry?, hprogram]
  simp only [runEvent, hentry]
  cases program.entry? with
  | none => rw [execute_idle rfl]
  | some start =>
      have hevent : graph.blueprint.events.find? (Frame.start event args).event = some program :=
        hprogram
      simp only [continueFrame, hevent]
      rfl

theorem runEvent_undefined {registry : Registry} {config : RuntimeConfig} {graph : BoundGraph}
    {object : Object} {event : String} {args : EventArgs}
    (hprogram : graph.blueprint.events.find? event = none) :
    runEvent registry config graph object event args = ⟨⟨object, graph.vars⟩, [], .finished⟩ := by
  simp [runEvent, BoundGraph.entry?, hprogram]

theorem resume_eq {registry : Registry} {config : RuntimeConfig} {graph : BoundGraph}
    {program : Program} {object : Object} {c : Continuation}
    (hprogram : graph.blueprint.events.find? c.frame.event = some program) :
    resume registry config graph object c =
      (execute registry config graph.className program (config.stepBudget - c.frame.steps)
        ⟨object, graph.vars⟩ c.frame (c.slot.bind (program.successor? c.node))).after
          [.resumed c.frame.event c.node] := by
  have hnext : c.slot.bind (graph.successor? c.frame.event c.node) =
      c.slot.bind (program.successor? c.node) := by
    congr 1
    funext slot
    simp [BoundGraph.successor?, hprogram]
  simp only [resume, continueFrame, hnext, hprogram, Outcome.after, List.singleton_append]

end Nodeflow
