import Mathlib
import Nodeflow.Proofs.Capability.Faults
import Nodeflow.Proofs.Run.Execution

/-!
# The calls of a run

A run of a built graph calls capabilities as their descriptors declare, whether a parameter
is a literal, which was given its type when the graph was built, or an expression, which gets
it at each call.  What a capability would do if it were called otherwise never shows.
-/

namespace Nodeflow

/-! ## Evaluated parameters -/

theorem BoundParam.value_holds {config : RuntimeConfig} {env : Environment} {spec : ParamSpec}
    {param : BoundParam} {v : Value} (hparam : spec.Admits param)
    (h : param.value config env spec = .ok v) : spec.type.Holds v := by
  cases param with
  | literal literal => exact Except.ok.inj h ▸ hparam
  | expression e =>
      simp only [BoundParam.value, bind, Except.bind] at h
      split at h
      · contradiction
      · split at h
        · rename_i hcoerce
          exact Except.ok.inj h ▸ ParamType.holds_of_coerce hcoerce
        · contradiction

theorem arguments_takes {config : RuntimeConfig} {env : Environment} {specs : List ParamSpec}
    {params : List BoundParam} (hparams : List.Forall₂ ParamSpec.Admits specs params)
    {args : List (String × Value)} (h : arguments config env specs params = .ok args) :
    List.Forall₂ ParamSpec.Takes specs args := by
  induction hparams generalizing args with
  | nil =>
      cases h
      exact .nil
  | @cons spec param specs params hparam _ ih =>
      simp only [arguments] at h
      cases hvalue : param.value config env spec with
      | error e => simp [hvalue, Except.mapError, bind, Except.bind] at h
      | ok v =>
          cases hrest : arguments config env specs params with
          | error e => simp [hvalue, hrest, Except.mapError, bind, Except.bind] at h
          | ok rest =>
              simp only [hvalue, hrest, Except.mapError, bind, Except.bind, pure,
                Except.pure] at h
              cases h
              exact .cons ⟨rfl, BoundParam.value_holds hparam hvalue⟩ (ih hrest)

theorem callContext_meets {capability : Capability} {store : Store} {scope : LocalScope}
    {args : List (String × Value)} (hargs : capability.descriptor.Takes args) :
    (callContext capability store scope args).Meets capability.descriptor := by
  refine ⟨hargs, ?_⟩
  cases hmethod : capability.descriptor.method <;> simp [callContext, hmethod]

/-! ## Calls -/

structure CallSite where
  node : Nat
  capability : Capability
  context : CallContext

def CallSite.result (call : CallSite) : Except CapabilityError Invocation :=
  (call.capability.invoke.run.run call.context).1

/-- A run makes a call at the node it is at, or further on. -/
inductive Calls (registry : Registry) (config : RuntimeConfig) (program : Program) :
    Nat → Store → Frame → Option Nat → CallSite → Prop
  | here {left index : Nat} {store : Store} {frame : Frame} {node : ReadyNode}
      {capability : Capability} {args : List (String × Value)}
      (hnode : program.node? index = some node)
      (hcapability : registry.get? node.capability = some capability)
      (hargs : arguments config ⟨frame.scope, store.vars, some store.object.fields⟩
        capability.descriptor.params node.params = .ok args) :
      Calls registry config program (left + 1) store frame (some index)
        ⟨index, capability, callContext capability store frame.scope args⟩
  | later {left index : Nat} {store : Store} {frame : Frame} {node : ReadyNode}
      {capability : Capability} {run : NodeRun} {slot : Option Nat} {call : CallSite}
      (hnode : program.node? index = some node)
      (hcapability : registry.get? node.capability = some capability)
      (hrun : run = runNode config index node capability store frame.scope)
      (hverdict : run.verdict = .advance slot)
      (hrest : Calls registry config program left run.store (frame.next run)
        (slot.bind (program.successor? index)) call) :
      Calls registry config program (left + 1) store frame (some index) call

def BoundGraph.Calls (registry : Registry) (config : RuntimeConfig) (graph : BoundGraph)
    (object : Object) (frame : Frame) (current : Option Nat) (call : CallSite) : Prop :=
  ∃ program, graph.blueprint.events.find? frame.event = some program ∧
    Nodeflow.Calls registry config program (config.stepBudget - frame.steps)
      ⟨object, graph.vars⟩ frame current call

section Typed

variable {registry : Registry} {config : RuntimeConfig} {program : Program}

theorem Program.Typed.admits (htyped : program.Typed registry) {index : Nat} {node : ReadyNode}
    {capability : Capability} (hnode : program.node? index = some node)
    (hcapability : registry.get? node.capability = some capability) :
    List.Forall₂ ParamSpec.Admits capability.descriptor.params node.params := by
  obtain ⟨capability', hcapability', hparams⟩ := htyped index node hnode
  obtain rfl : capability = capability' := Option.some.inj (hcapability.symm.trans hcapability')
  exact hparams

theorem Calls.meets (htyped : program.Typed registry) {left : Nat} {store : Store} {frame : Frame}
    {current : Option Nat} {call : CallSite}
    (h : Calls registry config program left store frame current call) :
    call.context.Meets call.capability.descriptor := by
  induction h with
  | here hnode hcapability hargs =>
      exact callContext_meets (arguments_takes (htyped.admits hnode hcapability) hargs)
  | later _ _ _ _ _ ih => exact ih

/-! ## Failed calls -/

theorem runNode_abort {index : Nat} {node : ReadyNode} {capability : Capability} {store : Store}
    {scope : LocalScope} {failed : Nat} {name : String} {error : CapabilityError}
    (h : (runNode config index node capability store scope).verdict =
      .abort (.capability failed name error)) :
    failed = index ∧ name = capability.name ∧
      ∃ args, arguments config ⟨scope, store.vars, some store.object.fields⟩
          capability.descriptor.params node.params = .ok args ∧
        (capability.invoke.run.run (callContext capability store scope args)).1 =
          .error error := by
  simp only [runNode] at h
  split at h
  · cases h
  · rename_i args hargs
    simp only [callNode_eq, verdictOf] at h
    split at h
    · rename_i e hresult
      cases h
      exact ⟨rfl, rfl, args, hargs, hresult⟩
    · cases h
    all_goals
      split at h
      · cases h
      · cases h

theorem execute_failed {className : String} {left : Nat} {store : Store} {frame : Frame}
    {current : Option Nat} {index : Nat} {name : String} {error : CapabilityError}
    (h : (execute registry config className program left store frame current).ending =
      .aborted (.capability index name error)) :
    ∃ call, Calls registry config program left store frame current call ∧
      call.node = index ∧ call.capability.name = name ∧ call.result = .error error := by
  revert h
  refine execute_induction (motive := fun left store frame current o =>
    o.ending = .aborted (.capability index name error) →
      ∃ call, Calls registry config program left store frame current call ∧
        call.node = index ∧ call.capability.name = name ∧ call.result = .error error)
    ?idle ?exhausted ?unregistered ?stop ?park ?advance left store frame current
  case idle => intros; contradiction
  case exhausted => rintro store frame index node - ⟨⟩
  case unregistered => intros; contradiction
  case stop =>
    rintro left store frame index' node capability run ending hnode hcapability rfl hstop ⟨⟩
    obtain ⟨_, hverdict, ⟨⟩⟩ | ⟨-, ⟨⟩⟩ := Verdict.ending?_eq_some.1 hstop
    obtain ⟨rfl, rfl, args, hargs, hresult⟩ := runNode_abort hverdict
    exact ⟨_, .here hnode hcapability hargs, rfl, rfl, hresult⟩
  case park => intros; contradiction
  case advance =>
    rintro left store frame index' node capability run slot rest hnode hcapability hrun hverdict -
      ih hending
    obtain ⟨call, hcall, hfailed⟩ := ih hending
    exact ⟨call, .later hnode hcapability hrun hverdict hcall, hfailed⟩

end Typed

/-! ## Other calls -/

structure Capability.SameAsDeclared (c other : Capability) : Prop where
  descriptor : other.descriptor = c.descriptor
  invoke : ∀ context, context.Meets c.descriptor →
    other.invoke.run.run context = c.invoke.run.run context

/-- The same capabilities under the same numbers, as far as they are called as declared. -/
def Registry.SameAsDeclared (registry other : Registry) : Prop :=
  ∀ id, Option.Rel Capability.SameAsDeclared (registry.get? id) (other.get? id)

section SameAsDeclared

variable {registry other : Registry} (hsame : registry.SameAsDeclared other)
include hsame

theorem Registry.SameAsDeclared.get?_eq_none {id : UInt32} (hnone : registry.get? id = none) :
    other.get? id = none := by
  have hrel := hsame id
  rw [hnone] at hrel
  generalize other.get? id = found at hrel
  cases hrel
  rfl

theorem Registry.SameAsDeclared.exists_get? {id : UInt32} {c : Capability}
    (hc : registry.get? id = some c) :
    ∃ c', other.get? id = some c' ∧ c.SameAsDeclared c' := by
  have hrel := hsame id
  rw [hc] at hrel
  generalize other.get? id = found at hrel
  cases hrel with
  | some hc' => exact ⟨_, rfl, hc'⟩

end SameAsDeclared

theorem runNode_sameAsDeclared {c other : Capability} (hsame : c.SameAsDeclared other)
    {config : RuntimeConfig} {node : ReadyNode}
    (hparams : List.Forall₂ ParamSpec.Admits c.descriptor.params node.params) (index : Nat)
    (store : Store) (scope : LocalScope) :
    runNode config index node other store scope = runNode config index node c store scope := by
  obtain ⟨descriptor, invoke⟩ := other
  obtain ⟨rfl, hinvoke⟩ := hsame
  simp only [runNode]
  split
  · rfl
  · rename_i args hargs
    have hmeets : (callContext c store scope args).Meets c.descriptor :=
      callContext_meets (arguments_takes hparams hargs)
    have hcall : callNode index ⟨c.descriptor, invoke⟩ store scope args =
        callNode index c store scope args := by
      simp only [callNode_eq]
      rw [← hinvoke _ hmeets]
      rfl
    rw [hcall]

theorem execute_sameAsDeclared {registry other : Registry} (hsame : registry.SameAsDeclared other)
    {program : Program} (htyped : program.Typed registry) (config : RuntimeConfig)
    (className : String) (left : Nat) (store : Store) (frame : Frame) (current : Option Nat) :
    execute other config className program left store frame current =
      execute registry config className program left store frame current := by
  have hnodes : ∀ {index node capability}, program.node? index = some node →
      registry.get? node.capability = some capability →
        ∃ capability', other.get? node.capability = some capability' ∧
          ∀ store scope, runNode config index node capability' store scope =
            runNode config index node capability store scope := by
    intro index node capability hnode hcapability
    obtain ⟨capability', hcapability', hdeclared⟩ := hsame.exists_get? hcapability
    have hparams := htyped.admits hnode hcapability
    exact ⟨capability', hcapability', runNode_sameAsDeclared hdeclared hparams index⟩
  refine execute_induction (motive := fun left store frame current o =>
    execute other config className program left store frame current = o)
    ?idle ?exhausted ?unregistered ?stop ?park ?advance left store frame current
  case idle =>
    intro left store frame current hidle
    exact execute_idle hidle
  case exhausted =>
    intro store frame index node hnode
    exact execute_exhausted hnode
  case unregistered =>
    intro left store frame index node hnode hnone
    exact execute_unregistered hnode (hsame.get?_eq_none hnone)
  case stop =>
    rintro left store frame index node capability run ending hnode hcapability rfl hstop
    obtain ⟨capability', hcapability', hrun⟩ := hnodes hnode hcapability
    rw [← hrun] at hstop ⊢
    exact execute_stop hnode hcapability' hstop
  case park =>
    rintro left store frame index node capability run slot condition hnode hcapability rfl
      hverdict -
    obtain ⟨capability', hcapability', hrun⟩ := hnodes hnode hcapability
    rw [← hrun] at hverdict ⊢
    exact execute_park hnode hcapability' hverdict
  case advance =>
    rintro left store frame index node capability run slot rest hnode hcapability rfl hverdict - ih
    obtain ⟨capability', hcapability', hrun⟩ := hnodes hnode hcapability
    rw [← hrun] at hverdict ih ⊢
    rw [execute_advance hnode hcapability' hverdict, ih]

/-! ## Built graphs -/

section Graph

variable {registry : Registry} {config : RuntimeConfig} {graph : BoundGraph} {object : Object}

theorem continueFrame_failed {frame : Frame} {current : Option Nat} {index : Nat} {name : String}
    {error : CapabilityError}
    (h : (continueFrame registry config graph object frame current).ending =
      .aborted (.capability index name error)) :
    ∃ call, graph.Calls registry config object frame current call ∧ call.node = index ∧
      call.capability.name = name ∧ call.result = .error error := by
  unfold continueFrame at h
  split at h
  · contradiction
  · rename_i program hprogram
    obtain ⟨call, hcall, hfailed⟩ := execute_failed h
    exact ⟨call, ⟨program, hprogram, hcall⟩, hfailed⟩

theorem continueFrame_sameAsDeclared {other : Registry} (hsame : registry.SameAsDeclared other)
    (htyped : ∀ event program, graph.blueprint.events.find? event = some program →
      program.Typed registry) (frame : Frame) (current : Option Nat) :
    continueFrame other config graph object frame current =
      continueFrame registry config graph object frame current := by
  unfold continueFrame
  split
  · rfl
  · rename_i program hprogram
    exact execute_sameAsDeclared hsame (htyped _ _ hprogram) ..

end Graph

theorem Object.setField_of_isActor {o : Object} (hactor : o.isActor = true) (field : String)
    (value : Value) : (o.setField field value).1 = .ok () := by
  unfold isActor at hactor
  unfold setField
  split <;> simp_all

def CapabilityError.blamesCall : CapabilityError → Bool
  | .missingArgument _ | .argumentType _ _ | .noObject => true
  | .unknownField _ | .failed _ => false

def blamer : Object where
  className := "Blamer"
  fields := ∅
  nature := .custom .unit
    { responds := fun _ _ => true
      setField := fun body name _ => (body, .error (.missingArgument name))
      native := fun body _ _ _ => (body, .missing) }

def printText : Capability where
  descriptor := Builtin.print.descriptor
  invoke := do
    let text ← Call.text "text"
    Call.print text
    pure (.done .unit)

def soleEnding (c : Capability) (params : List Param) (o : Object) : Ending :=
  let registry := (Registry.empty.registerAll [c]).1
  let d : GraphDefinition :=
    ⟨.ofList [("Hit", ⟨[⟨c.name, params, .origin⟩], []⟩)], .ofList [("Hit", some 0)], ∅⟩
  (runEvent registry .default ⟨o.className, ⟨0, 0⟩, (d.build registry .default).blueprint, ∅⟩ o
    "Hit" ∅).ending

end Nodeflow
