import Nodeflow.Program.Build
import Nodeflow.Proofs.Run.Execution

/-!
# Recording of nodes

Whether the nodes that are entered are recorded makes no difference to what is built and to
what a run does.  The trace of a run that records none is that of the run that records all,
with the entries of nodes left out.
-/

namespace Nodeflow

def RuntimeConfig.recording (config : RuntimeConfig) (on : Bool) : RuntimeConfig :=
  { config with traceNodes := on }

/-! ## Building -/

theorem bindParams_congr {config config' : RuntimeConfig} (h : config'.maxDepth = config.maxDepth)
    (specs : List ParamSpec) (params : List Param) :
    bindParams config' specs params = bindParams config specs params := by
  have hparsed : ∀ spec source, bindParam.parsed config' spec source =
      bindParam.parsed config spec source := by
    intro spec source
    simp only [bindParam.parsed, Expression.parse, h]
  induction specs generalizing params with
  | nil => rfl
  | cons spec specs ih =>
      cases params with
      | nil => rfl
      | cons param params =>
          have hbind : bindParam config' spec param = bindParam config spec param := by
            simp only [bindParam, hparsed]
          simp only [bindParams, hbind, ih]

theorem build_congr {config config' : RuntimeConfig} (h : config'.maxDepth = config.maxDepth)
    (registry : Registry) (d : GraphDefinition) :
    d.build registry config' = d.build registry config := by
  have hnode : buildNode registry config' = buildNode registry config := by
    funext node
    simp only [buildNode, bindParams_congr h]
  have hevent : buildEvent registry config' = buildEvent registry config := by
    funext event graph start
    simp only [buildEvent, wire, hnode]
  simp only [GraphDefinition.build, hevent]

/-! ## Traces without entries -/

def withoutEntries (trace : List TraceEvent) : List TraceEvent :=
  trace.filter fun e => e.entered?.isNone

@[simp] theorem withoutEntries_append (first second : List TraceEvent) :
    withoutEntries (first ++ second) = withoutEntries first ++ withoutEntries second :=
  List.filter_append ..

@[simp] theorem withoutEntries_printed (lines : List String) :
    withoutEntries (lines.map .printed) = lines.map .printed := by
  refine List.filter_eq_self.2 fun e he => ?_
  obtain ⟨line, -, rfl⟩ := List.mem_map.1 he
  rfl

def Outcome.withoutEntries (o : Outcome) : Outcome :=
  { o with trace := Nodeflow.withoutEntries o.trace }

theorem Outcome.withoutEntries_after (o : Outcome) (trace : List TraceEvent) :
    (o.after trace).withoutEntries = o.withoutEntries.after (Nodeflow.withoutEntries trace) := by
  simp [after, withoutEntries]

/-! ## Running -/

variable (registry : Registry) (config : RuntimeConfig)

theorem runNode_unrecorded (index : Nat) (node : ReadyNode) (capability : Capability)
    (store : Store) (scope : LocalScope) :
    runNode (config.recording false) index node capability store scope =
      { runNode config index node capability store scope with
        trace := withoutEntries (runNode config index node capability store scope).trace } := by
  have hoperations : (config.recording false).maxOperations = config.maxOperations := rfl
  have hentered : withoutEntries (if config.traceNodes then [.entered index] else []) = [] := by
    split <;> rfl
  simp only [runNode, arguments_congr hoperations]
  split
  · simp [hentered, RuntimeConfig.recording]
  · simp [hentered, RuntimeConfig.recording, callNode_eq]

theorem execute_unrecorded (className : String) (program : Program) (left : Nat) (store : Store)
    (frame : Frame) (current : Option Nat) :
    execute registry (config.recording false) className program left store frame current =
      (execute registry config className program left store frame current).withoutEntries := by
  refine execute_induction (motive := fun left store frame current o =>
    execute registry (config.recording false) className program left store frame current =
      o.withoutEntries)
    ?idle ?exhausted ?unregistered ?stop ?park ?advance left store frame current
  case idle =>
    intro left store frame current hidle
    exact execute_idle hidle
  case exhausted =>
    intro store frame index node hnode
    exact execute_exhausted hnode
  case unregistered =>
    intro left store frame index node hnode hcapability
    exact execute_unregistered hnode hcapability
  case stop =>
    rintro left store frame index node capability run ending hnode hcapability rfl hstop
    have hrun := runNode_unrecorded config index node capability store frame.scope
    rw [execute_stop hnode hcapability (by rw [hrun]; exact hstop), hrun]
    rfl
  case park =>
    rintro left store frame index node capability run slot condition hnode hcapability rfl
      hverdict -
    have hrun := runNode_unrecorded config index node capability store frame.scope
    rw [execute_park hnode hcapability (by rw [hrun]; exact hverdict), hrun]
    simp only [Outcome.withoutEntries, withoutEntries_append]
    rfl
  case advance =>
    rintro left store frame index node capability run slot rest hnode hcapability rfl hverdict
      rfl ih
    have hrun := runNode_unrecorded config index node capability store frame.scope
    rw [execute_advance hnode hcapability (by rw [hrun]; exact hverdict), hrun]
    rw [Outcome.withoutEntries_after, ← ih]
    rfl

theorem continueFrame_unrecorded (graph : BoundGraph) (object : Object) (frame : Frame)
    (current : Option Nat) :
    continueFrame registry (config.recording false) graph object frame current =
      (continueFrame registry config graph object frame current).withoutEntries := by
  unfold continueFrame
  split
  · rfl
  · exact execute_unrecorded ..

theorem runEvent_unrecorded (graph : BoundGraph) (object : Object) (event : String)
    (args : EventArgs) :
    runEvent registry (config.recording false) graph object event args =
      (runEvent registry config graph object event args).withoutEntries := by
  unfold runEvent
  split
  · rfl
  · exact continueFrame_unrecorded ..

theorem resume_unrecorded (graph : BoundGraph) (object : Object) (c : Continuation) :
    resume registry (config.recording false) graph object c =
      (resume registry config graph object c).withoutEntries := by
  simp only [resume, continueFrame_unrecorded]
  rfl

end Nodeflow
