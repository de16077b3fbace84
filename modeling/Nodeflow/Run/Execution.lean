import Nodeflow.Program.Basic
import Nodeflow.Registry
import Nodeflow.Run.Continuation
import Nodeflow.Run.Error

/-!
# Running programs

A run goes from node to node.  At each node the parameters are evaluated, the
capability is called, and the output that its result selects leads on to the next node.
What remains of the step budget bounds the run, over all the parts it is cut into.
-/

namespace Nodeflow

structure Store where
  object : Object
  vars : Variables

inductive Ending where
  | finished
  | parked (continuation : Continuation)
  | aborted (error : ExecError)
  | panicked

structure Outcome where
  store : Store
  trace : List TraceEvent
  ending : Ending

/-! ## One node -/

def BoundParam.value (config : RuntimeConfig) (env : Environment) (spec : ParamSpec) :
    BoundParam → Except ExprError Value
  | .literal v => .ok v
  | .expression e => do
    let v ← e.value config env
    match spec.type.coerce v with
    | .ok v => .ok v
    | .error why => .error (.mismatch why)

def arguments (config : RuntimeConfig) (env : Environment) :
    List ParamSpec → List BoundParam → Except (String × ExprError) (List (String × Value))
  | spec :: specs, param :: params => do
    let v ← (param.value config env spec).mapError fun e => (spec.name, e)
    let rest ← arguments config env specs params
    pure ((spec.name, v) :: rest)
  | _, _ => pure []

inductive Verdict where
  | advance (slot : Option Nat)
  | park (slot : Option Nat) (condition : Condition)
  | abort (error : ExecError)
  | panic

structure NodeRun where
  store : Store
  scope : LocalScope
  trace : List TraceEvent
  verdict : Verdict

/-- A result of a latent capability waits at least for the next tick, and no other
result may wait. -/
def verdictOf (index : Nat) (d : Descriptor) : Except CapabilityError Invocation → Verdict
  | .error e => .abort (.capability index d.id e)
  | .ok .panic => .panic
  | .ok (.suspend v condition) =>
    if d.latent then .park (d.selectSlot v) condition else .abort (.illegalSuspend index d.id)
  | .ok (.done v) =>
    if d.latent then .park (d.selectSlot v) .nextTick else .advance (d.selectSlot v)

/-- The object after a call, which only a method may have worked on. -/
def Object.after (o : Object) (d : Descriptor) (owner : Option Object) : Object :=
  if d.method then owner.getD o else o

def callNode (index : Nat) (capability : Capability) (store : Store) (scope : LocalScope)
    (args : List (String × Value)) : NodeRun :=
  let d := capability.descriptor
  let owner := if d.method then some store.object else none
  let (result, context) := capability.invoke.run.run ⟨d.id, args, owner, scope, store.vars, []⟩
  { store := ⟨store.object.after d context.owner, context.vars⟩
    scope := context.scope
    trace := context.printed.map .printed
    verdict := verdictOf index d result }

def runNode (config : RuntimeConfig) (index : Nat) (node : ReadyNode) (capability : Capability)
    (store : Store) (scope : LocalScope) : NodeRun :=
  let d := capability.descriptor
  let entered := if config.traceNodes then [.entered index] else []
  match arguments config ⟨scope, store.vars, some store.object.fields⟩ d.params node.params with
  | .error (param, e) => ⟨store, scope, entered, .abort (.parameter index d.id param e)⟩
  | .ok args =>
    let run := callNode index capability store scope args
    { run with trace := entered ++ run.trace }

/-! ## Whole runs -/

/-- Executes nodes from `current` on, as long as steps are left. -/
def execute (registry : Registry) (config : RuntimeConfig) (className : String) (program : Program) :
    (left : Nat) → Store → Frame → (current : Option Nat) → Outcome
  | left, store, frame, current =>
    match current with
    | none => ⟨store, [], .finished⟩
    | some index =>
      match program.node? index with
      | none => ⟨store, [], .finished⟩
      | some node =>
        match left with
        | 0 => ⟨store, [], .aborted (.stepBudgetExceeded config.stepBudget)⟩
        | left + 1 =>
          match registry.get? node.capability with
          | none => ⟨store, [], .finished⟩
          | some capability =>
            let run := runNode config index node capability store frame.scope
            let frame := { frame with scope := run.scope, steps := frame.steps + 1 }
            match run.verdict with
            | .abort e => ⟨run.store, run.trace, .aborted e⟩
            | .panic => ⟨run.store, run.trace, .panicked⟩
            | .park slot condition =>
              ⟨ run.store, run.trace ++ [.suspended frame.event index]
              , .parked ⟨className, frame, index, slot, condition⟩ ⟩
            | .advance slot =>
              let rest := execute registry config className program left run.store frame
                (slot.bind (program.successor? index))
              { rest with trace := run.trace ++ rest.trace }

def continueFrame (registry : Registry) (config : RuntimeConfig) (graph : BoundGraph)
    (object : Object) (frame : Frame) (current : Option Nat) : Outcome :=
  let store := ⟨object, graph.vars⟩
  match graph.blueprint.events.find? frame.event with
  | none => ⟨store, [], .finished⟩
  | some program =>
    execute registry config graph.className program (config.stepBudget - frame.steps) store frame
      current

def runEvent (registry : Registry) (config : RuntimeConfig) (graph : BoundGraph)
    (object : Object) (event : String) (args : EventArgs) : Outcome :=
  match graph.entry? event with
  | none => ⟨⟨object, graph.vars⟩, [], .finished⟩
  | some start => continueFrame registry config graph object (.start event args) (some start)

def resume (registry : Registry) (config : RuntimeConfig) (graph : BoundGraph)
    (object : Object) (c : Continuation) : Outcome :=
  let next := c.slot.bind (graph.successor? c.frame.event c.node)
  let rest := continueFrame registry config graph object c.frame next
  { rest with trace := .resumed c.frame.event c.node :: rest.trace }

end Nodeflow
