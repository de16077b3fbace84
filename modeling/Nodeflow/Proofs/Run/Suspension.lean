import Nodeflow.Proofs.Run.Execution

/-!
# Suspension is transparent

A run that is cut at latent nodes, and resumed each time with nothing in between, does
what the same run does in one piece when no capability waits.  The two runs are related
node by node: they execute the same nodes on the same store, and the frame that a cut
carries over counts the steps that the run in one piece has counted.
-/

namespace Nodeflow

/-! ## Capabilities that do not wait -/

def Invocation.immediate : Invocation → Invocation
  | .suspend v _ => .done v
  | i => i

def Capability.immediate (c : Capability) : Capability :=
  if c.descriptor.latent then
    { descriptor := { c.descriptor with latent := false }
      invoke := Invocation.immediate <$> c.invoke }
  else c

@[simp] theorem Capability.immediate_name (c : Capability) : c.immediate.name = c.name := by
  unfold Capability.immediate
  split <;> rfl

def Registry.immediate (r : Registry) : Registry where
  entries := r.entries.map Capability.immediate
  numbers := r.numbers
  distinct := by simpa [Function.comp_def] using r.distinct
  numbered := by simpa [List.findIdx?_map, Function.comp_def] using r.numbered

theorem Registry.immediate_get? (r : Registry) (id : UInt32) :
    r.immediate.get? id = (r.get? id).map Capability.immediate := by
  simp [Registry.immediate, Registry.get?]

theorem Registry.immediate_get?_some {r : Registry} {id : UInt32} {c : Capability}
    (h : r.get? id = some c) : r.immediate.get? id = some c.immediate := by
  rw [r.immediate_get?, h]
  rfl

def Verdict.immediate : Verdict → Verdict
  | .park slot _ => .advance slot
  | v => v

theorem verdictOf_immediate (index : Nat) {d : Descriptor} (hlatent : d.latent = true)
    (result : Except CapabilityError Invocation) :
    verdictOf index { d with latent := false } (result.map Invocation.immediate) =
      (verdictOf index d result).immediate := by
  cases result with
  | error e => rfl
  | ok invocation =>
      cases invocation <;>
        simp [verdictOf, Except.map, Verdict.immediate, Invocation.immediate, hlatent,
          Descriptor.selectSlot]

theorem verdictOf_not_latent (index : Nat) {d : Descriptor} (hlatent : d.latent = false)
    (result : Except CapabilityError Invocation) :
    (verdictOf index d result).immediate = verdictOf index d result := by
  rcases result with e | ⟨v⟩ | ⟨v, condition⟩ | _ <;> simp [verdictOf, Verdict.immediate, hlatent]

theorem Call.run_map {α β : Type} (f : α → β) (x : Call α) (context : CallContext) :
    (f <$> x).run.run context = ((x.run.run context).1.map f, (x.run.run context).2) := by
  rw [ExceptT.run_map]
  rfl

theorem callNode_immediate (index : Nat) (capability : Capability) (store : Store)
    (scope : LocalScope) (args : List (String × Value)) :
    callNode index capability.immediate store scope args =
      { callNode index capability store scope args with
        verdict := (callNode index capability store scope args).verdict.immediate } := by
  cases hlatent : capability.descriptor.latent with
  | true =>
      simp only [callNode_eq, Capability.immediate, hlatent, if_true, Call.run_map,
        verdictOf_immediate index hlatent]
      rfl
  | false =>
      simp [callNode_eq, Capability.immediate, hlatent, verdictOf_not_latent index hlatent]

theorem runNode_immediate (config : RuntimeConfig) (index : Nat) (node : ReadyNode)
    (capability : Capability) (store : Store) (scope : LocalScope) :
    runNode config index node capability.immediate store scope =
      { runNode config index node capability store scope with
        verdict := (runNode config index node capability store scope).verdict.immediate } := by
  have hparams : capability.immediate.descriptor.params = capability.descriptor.params := by
    unfold Capability.immediate
    split <;> rfl
  have hid : capability.immediate.descriptor.id = capability.descriptor.id :=
    capability.immediate_name
  simp only [runNode, hparams, hid, callNode_immediate]
  split <;> rfl

section Immediate

variable {registry : Registry} {config : RuntimeConfig} {className : String} {program : Program}
  {left index : Nat} {store : Store} {frame : Frame} {node : ReadyNode} {capability : Capability}
  {run : NodeRun} (hnode : program.node? index = some node)
  (hcapability : registry.get? node.capability = some capability)
  (hrun : run = runNode config index node capability store frame.scope)
include hnode hcapability hrun

theorem execute_immediate_stop {ending : Ending} (hstop : run.verdict.ending? = some ending) :
    execute registry.immediate config className program (left + 1) store frame (some index) =
      ⟨run.store, run.trace, ending⟩ := by
  have hwhole := runNode_immediate config index node capability store frame.scope
  rw [← hrun] at hwhole
  have hsame : run.verdict.immediate.ending? = run.verdict.ending? := by
    cases run.verdict <;> rfl
  rw [execute_stop hnode (Registry.immediate_get?_some hcapability)
    (by rw [hwhole]; exact hsame.trans hstop), hwhole]

theorem execute_immediate_advance {slot : Option Nat}
    (hverdict : run.verdict.immediate = .advance slot) :
    execute registry.immediate config className program (left + 1) store frame (some index) =
      (execute registry.immediate config className program left run.store (frame.next run)
        (slot.bind (program.successor? index))).after run.trace := by
  have hwhole := runNode_immediate config index node capability store frame.scope
  rw [← hrun] at hwhole
  rw [execute_advance hnode (Registry.immediate_get?_some hcapability)
    (by rw [hwhole, hverdict]), hwhole]
  rfl

end Immediate

/-! ## Traces without cuts -/

def withoutCuts (trace : List TraceEvent) : List TraceEvent :=
  trace.filter fun e => !e.isCut

@[simp] theorem withoutCuts_append (first second : List TraceEvent) :
    withoutCuts (first ++ second) = withoutCuts first ++ withoutCuts second :=
  List.filter_append ..

theorem runNode_withoutCuts (config : RuntimeConfig) (index : Nat) (node : ReadyNode)
    (capability : Capability) (store : Store) (scope : LocalScope) :
    withoutCuts (runNode config index node capability store scope).trace =
      (runNode config index node capability store scope).trace :=
  List.filter_eq_self.2 fun e he => by simp [runNode_isCut e he]

/-! ## Resuming until nothing is parked -/

/--
An outcome, and what has come of it once everything it parks is resumed with nothing
happening in between, until nothing is parked any more.  Each resumption finds the object
and the variables as the part before has left them; polls may have moved the condition on.
-/
inductive RunsOut (registry : Registry) (config : RuntimeConfig) (graph : BoundGraph) :
    Outcome → Outcome → Prop
  | ended {o : Outcome} (hended : ∀ c, o.ending ≠ .parked c) : RunsOut registry config graph o o
  | resumed {o final : Outcome} {c : Continuation} (condition : Condition)
      (hparked : o.ending = .parked c)
      (hrest : RunsOut registry config graph
        (resume registry config { graph with vars := o.store.vars } o.store.object
          { c with condition }) final) :
      RunsOut registry config graph o (final.after o.trace)

namespace RunsOut

variable {registry : Registry} {config : RuntimeConfig} {graph : BoundGraph}
  {o final : Outcome}

theorem after (h : RunsOut registry config graph o final) (trace : List TraceEvent) :
    RunsOut registry config graph (o.after trace) (final.after trace) := by
  cases h with
  | ended hended => exact .ended hended
  | @resumed _ final c condition hparked hrest =>
      have htrace : (final.after o.trace).after trace = final.after (o.after trace).trace := by
        simp [Outcome.after]
      rw [htrace]
      exact .resumed (o := o.after trace) condition hparked hrest

theorem unique (h : RunsOut registry config graph o final) {other : Outcome}
    (hother : RunsOut registry config graph o other) : other = final := by
  induction h generalizing other with
  | ended hended =>
      cases hother with
      | ended _ => rfl
      | resumed _ hparked _ => exact absurd hparked (hended _)
  | resumed condition hparked hrest ih =>
      cases hother with
      | ended hended => exact absurd hparked (hended _)
      | resumed condition' hparked' hrest' =>
          rw [hparked] at hparked'
          cases hparked'
          rw [ih hrest']

theorem not_parked (h : RunsOut registry config graph o final) (c : Continuation) :
    final.ending ≠ .parked c := by
  induction h with
  | ended hended => exact hended c
  | resumed condition hparked hrest ih => exact ih

end RunsOut

/-! ## The run in one piece -/

structure Outcome.Mends (final whole : Outcome) : Prop where
  store : final.store = whole.store
  trace : withoutCuts final.trace = whole.trace
  ending : final.ending = whole.ending

theorem Outcome.Mends.after {final whole : Outcome} (h : final.Mends whole)
    {cut trace : List TraceEvent} (hcut : withoutCuts cut = trace) :
    (final.after cut).Mends (whole.after trace) := by
  refine ⟨h.store, ?_, h.ending⟩
  simp only [Outcome.after, withoutCuts_append]
  rw [hcut, h.trace]

section Whole

variable {registry : Registry} {config : RuntimeConfig} {graph : BoundGraph} {program : Program}

theorem execute_mends (left : Nat) (store : Store) (frame : Frame) (current : Option Nat)
    (hprogram : graph.blueprint.events.find? frame.event = some program)
    (hleft : left = config.stepBudget - frame.steps) :
    ∃ final,
      RunsOut registry config graph
        (execute registry config graph.className program left store frame current) final ∧
      final.Mends
        (execute registry.immediate config graph.className program left store frame current) := by
  revert hprogram hleft
  refine execute_induction (motive := fun left store frame current o =>
    graph.blueprint.events.find? frame.event = some program →
    left = config.stepBudget - frame.steps →
    ∃ final, RunsOut registry config graph o final ∧
      final.Mends (execute registry.immediate config graph.className program left store frame
        current))
    ?idle ?exhausted ?unregistered ?stop ?park ?advance left store frame current
  case idle =>
    intro left store frame current hidle _ _
    refine ⟨_, .ended nofun, ?_⟩
    rw [execute_idle hidle]
    exact ⟨rfl, rfl, rfl⟩
  case exhausted =>
    intro store frame index node hnode _ _
    refine ⟨_, .ended nofun, ?_⟩
    rw [execute_exhausted hnode]
    exact ⟨rfl, rfl, rfl⟩
  case unregistered =>
    intro left store frame index node hnode hcapability _ _
    have himmediate : registry.immediate.get? node.capability = none := by
      rw [registry.immediate_get?, hcapability]
      rfl
    refine ⟨_, .ended nofun, ?_⟩
    rw [execute_unregistered hnode himmediate]
    exact ⟨rfl, rfl, rfl⟩
  case stop =>
    intro left store frame index node capability run ending hnode hcapability hrun hstop _ _
    have hended : ∀ c, ending ≠ .parked c := by
      rintro c rfl
      exact Verdict.ending?_ne_parked _ _ hstop
    refine ⟨_, .ended hended, ?_⟩
    rw [execute_immediate_stop hnode hcapability hrun hstop]
    exact ⟨rfl, hrun ▸ runNode_withoutCuts .., rfl⟩
  case park =>
    intro left store frame index node capability run slot condition hnode hcapability hrun
      hverdict ih hprogram hleft
    have hnext : left = config.stepBudget - (frame.next run).steps := by
      simp only [Frame.next]
      omega
    obtain ⟨final, hout, hmends⟩ := ih run.store hprogram hnext
    -- The resumption goes on where the whole run advances, with as many steps left.
    have hresume : resume registry config { graph with vars := run.store.vars } run.store.object
        ⟨graph.className, frame.next run, index, slot, condition⟩ =
          (execute registry config graph.className program left run.store (frame.next run)
            (slot.bind (program.successor? index))).after [.resumed frame.event index] := by
      rw [hnext]
      exact resume_eq hprogram
    refine ⟨_, .resumed condition rfl (hresume ▸ hout.after _), ?_⟩
    rw [execute_immediate_advance hnode hcapability hrun (congrArg Verdict.immediate hverdict)]
    have htrace : withoutCuts run.trace = run.trace := hrun ▸ runNode_withoutCuts ..
    have hresumed : withoutCuts [.resumed frame.event index] = [] := rfl
    refine (hmends.after hresumed).after ?_
    rw [withoutCuts_append, htrace]
    exact List.append_nil _
  case advance =>
    intro left store frame index node capability run slot rest hnode hcapability hrun hverdict
      hrest ih hprogram hleft
    have hnext : left = config.stepBudget - (frame.next run).steps := by
      simp only [Frame.next]
      omega
    obtain ⟨final, hout, hmends⟩ := ih hprogram hnext
    refine ⟨_, hout.after run.trace, ?_⟩
    rw [execute_immediate_advance hnode hcapability hrun (congrArg Verdict.immediate hverdict)]
    exact hmends.after (hrun ▸ runNode_withoutCuts ..)

end Whole

/--
A run that is resumed until nothing is parked ends, in one way only, and in that way it is
the run of the same event where no capability waits: the same store, the same trace apart
from what tells of the cuts, and the same end, be it an error or not.
-/
theorem runEvent_mends (registry : Registry) (config : RuntimeConfig) (graph : BoundGraph)
    (object : Object) (event : String) (args : EventArgs) :
    ∃ final,
      (∀ o, RunsOut registry config graph (runEvent registry config graph object event args) o ↔
        o = final) ∧
      final.store = (runEvent registry.immediate config graph object event args).store ∧
      withoutCuts final.trace = (runEvent registry.immediate config graph object event args).trace ∧
      final.ending = (runEvent registry.immediate config graph object event args).ending ∧
      ∀ c, final.ending ≠ .parked c := by
  have hmends : ∃ final,
      RunsOut registry config graph (runEvent registry config graph object event args) final ∧
      final.Mends (runEvent registry.immediate config graph object event args) := by
    unfold runEvent
    split
    · exact ⟨_, .ended nofun, rfl, rfl, rfl⟩
    · rename_i start _
      simp only [continueFrame]
      split
      · exact ⟨_, .ended nofun, rfl, rfl, rfl⟩
      · rename_i program hprogram
        exact execute_mends _ _ _ _ hprogram rfl
  obtain ⟨final, hout, hfinal⟩ := hmends
  refine ⟨final, fun o => ⟨fun ho => hout.unique ho, ?_⟩, hfinal.store, hfinal.trace,
    hfinal.ending, hout.not_parked⟩
  rintro rfl
  exact hout

end Nodeflow
