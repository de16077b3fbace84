import Nodeflow.Proofs.Run.Calls

/-!
# What a cut run waits for

A run is cut by the call of a latent capability, its last one.  It then waits for what the
call answers: the condition that the answer names, or the next tick if there is only a result.
-/

namespace Nodeflow

def Invocation.awaited? : Invocation → Option Condition
  | .done _ => some .nextTick
  | .suspend _ condition => some condition
  | .panic => none

/-- A continuation is what a run has left over when a call cut it. -/
structure Continuation.CutBy (c : Continuation) (call : CallSite) (invocation : Invocation) :
    Prop where
  node : call.node = c.node
  latent : call.capability.descriptor.latent = true
  answers : call.result = .ok invocation
  slot : c.slot = invocation.value?.bind call.capability.descriptor.selectSlot
  waits : invocation.awaited? = some c.condition

theorem verdictOf_eq_park {index : Nat} {d : Descriptor}
    {result : Except CapabilityError Invocation} {slot : Option Nat} {condition : Condition}
    (h : verdictOf index d result = .park slot condition) :
    d.latent = true ∧ ∃ invocation, result = .ok invocation ∧
      slot = invocation.value?.bind d.selectSlot ∧ invocation.awaited? = some condition := by
  have hlatent := (verdictOf_park h).1
  refine ⟨hlatent, ?_⟩
  rcases result with e | invocation
  · contradiction
  · refine ⟨invocation, rfl, ?_⟩
    cases invocation with
    | done v =>
        simp only [verdictOf, if_pos hlatent] at h
        cases h
        exact ⟨rfl, rfl⟩
    | suspend v asked =>
        simp only [verdictOf, if_pos hlatent] at h
        cases h
        exact ⟨rfl, rfl⟩
    | panic => contradiction

section Run

variable {registry : Registry} {config : RuntimeConfig}

theorem runNode_eq_park {index : Nat} {node : ReadyNode} {capability : Capability}
    {store : Store} {scope : LocalScope} {slot : Option Nat} {condition : Condition}
    (h : (runNode config index node capability store scope).verdict = .park slot condition) :
    ∃ args invocation,
      arguments config ⟨scope, store.vars, some store.object.fields⟩
        capability.descriptor.params node.params = .ok args ∧
      capability.descriptor.latent = true ∧
      (capability.invoke.run.run (callContext capability store scope args)).1 = .ok invocation ∧
      slot = invocation.value?.bind capability.descriptor.selectSlot ∧
      invocation.awaited? = some condition := by
  simp only [runNode] at h
  split at h
  · contradiction
  · rename_i args hargs
    rw [callNode_eq] at h
    obtain ⟨hlatent, invocation, hresult, hslot, hcondition⟩ := verdictOf_eq_park h
    exact ⟨args, invocation, hargs, hlatent, hresult, hslot, hcondition⟩

theorem execute_cut {className : String} {program : Program} {left : Nat} {store : Store}
    {frame : Frame} {current : Option Nat} {c : Continuation}
    (hparked : (execute registry config className program left store frame current).ending =
      .parked c) :
    ∃ call invocation, Calls registry config program left store frame current call ∧
      c.CutBy call invocation := by
  revert hparked
  refine execute_induction (motive := fun left store frame current o => o.ending = .parked c →
    ∃ call invocation, Calls registry config program left store frame current call ∧
      c.CutBy call invocation)
    ?idle ?exhausted ?unregistered ?stop ?park ?advance left store frame current
  case idle => intros; contradiction
  case exhausted => intros; contradiction
  case unregistered => intros; contradiction
  case stop =>
    rintro left store frame index node capability run ending - - - hstop ⟨⟩
    exact absurd hstop (Verdict.ending?_ne_parked _ _)
  case park =>
    rintro left store frame index node capability run slot condition hnode hcapability rfl
      hverdict - ⟨⟩
    obtain ⟨args, invocation, hargs, hlatent, hresult, hslot, hcondition⟩ :=
      runNode_eq_park hverdict
    exact ⟨_, invocation, .here hnode hcapability hargs, rfl, hlatent, hresult, hslot, hcondition⟩
  case advance =>
    rintro left store frame index node capability run slot rest hnode hcapability hrun hverdict -
      ih hparked
    obtain ⟨call, invocation, hcall, hcut⟩ := ih hparked
    exact ⟨call, invocation, .later hnode hcapability hrun hverdict hcall, hcut⟩

theorem continueFrame_cut {graph : BoundGraph} {object : Object} {frame : Frame}
    {current : Option Nat} {c : Continuation}
    (hparked : (continueFrame registry config graph object frame current).ending = .parked c) :
    ∃ call invocation, graph.Calls registry config object frame current call ∧
      c.CutBy call invocation := by
  unfold continueFrame at hparked
  split at hparked
  · contradiction
  · rename_i program hprogram
    obtain ⟨call, invocation, hcall, hcut⟩ := execute_cut hparked
    exact ⟨call, invocation, ⟨program, hprogram, hcall⟩, hcut⟩

end Run

/-! ## The built-in waits -/

namespace Builtin

theorem waitFrames_ok {context : CallContext} (h : context.Meets waitFrames.descriptor)
    {invocation : Invocation} (hok : (waitFrames.invoke.run.run context).1 = .ok invocation) :
    ∃ i : Int64, context.args = [("frames", .int i)] ∧ 0 ≤ i.toInt ∧ i.toInt < UInt32.size ∧
      invocation = .suspend .unit (.frames i.toInt.toNat) := by
  obtain ⟨i, hargs, hi⟩ := waitFrames_args h
  refine ⟨i, hargs, ?_⟩
  simp only [waitFrames, Call.run_bind, hi, frameCount?] at hok
  split at hok
  · rename_i count hcount
    split at hcount
    · rename_i hrange
      cases hcount
      cases hok
      exact ⟨hrange.1, hrange.2, rfl⟩
    · contradiction
  · contradiction

theorem delay_ok {context : CallContext} (h : context.Meets delay.descriptor)
    {invocation : Invocation} (hok : (delay.invoke.run.run context).1 = .ok invocation) :
    ∃ seconds : Float, context.args = [("seconds", .float seconds)] ∧
      invocation = .suspend .unit (.delay (singleOfDouble seconds)) := by
  obtain ⟨⟨name, v⟩, rest, ⟨rfl, hv⟩, hrest, hargs⟩ := List.forall₂_cons_left_iff.1 h.args
  rw [List.forall₂_nil_left_iff.1 hrest] at hargs
  cases hv with
  | float seconds =>
      refine ⟨seconds, hargs, ?_⟩
      have hread : (Call.float "seconds").run.run context = (.ok seconds, context) :=
        Call.run_argAs (by rw [hargs]; rfl) rfl
      simp only [delay, Call.run_bind, hread, Call.run_pure] at hok
      exact (Except.ok.inj hok).symm

theorem nextTick_ok {context : CallContext} {invocation : Invocation}
    (hok : (nextTick.invoke.run.run context).1 = .ok invocation) :
    invocation = .suspend .unit .nextTick := by
  simp only [nextTick, Call.run_pure] at hok
  exact (Except.ok.inj hok).symm

end Builtin

end Nodeflow
