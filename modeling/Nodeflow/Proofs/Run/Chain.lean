import Nodeflow.Proofs.Run.Execution

/-!
# Chains of parts

A run that parks is resumed later, and may then park again.  The parts it is cut into make
up a chain.  Between two parts other events may have been at work on the object and on the
variables, so a resumption finds them in whatever state they are then.  Every chain ends.
-/

namespace Nodeflow

def resumeIn (registry : Registry) (config : RuntimeConfig) (graph : BoundGraph) (found : Store)
    (c : Continuation) : Outcome :=
  resume registry config { graph with vars := found.vars } found.object c

theorem resumeIn_eq {registry : Registry} {config : RuntimeConfig} {graph : BoundGraph}
    {program : Program} {c : Continuation} (found : Store)
    (hprogram : graph.blueprint.events.find? c.frame.event = some program) :
    resumeIn registry config graph found c =
      (execute registry config graph.className program (config.stepBudget - c.frame.steps) found
        c.frame (c.slot.bind (program.successor? c.node))).after
          [.resumed c.frame.event c.node] := by
  unfold resumeIn
  exact resume_eq hprogram

/--
The parts of a chain from one on, which is resumed until nothing is parked any more.  For
the part of a number, `found` tells what the next resumption finds of the store that the
part has left behind.  Polls may have moved the condition on.
-/
inductive Parts (registry : Registry) (config : RuntimeConfig) (graph : BoundGraph)
    (found : Nat → Store → Store) : Nat → Outcome → List Outcome → Prop
  | last {n : Nat} {o : Outcome} (hended : ∀ c, o.ending ≠ .parked c) :
      Parts registry config graph found n o [o]
  | resumed {n : Nat} {o : Outcome} {c : Continuation} {rest : List Outcome}
      (condition : Condition) (hparked : o.ending = .parked c)
      (hrest : Parts registry config graph found (n + 1)
        (resumeIn registry config graph (found n o.store) { c with condition }) rest) :
      Parts registry config graph found n o (o :: rest)

section Steps

variable {registry : Registry} {config : RuntimeConfig} {graph : BoundGraph}

theorem execute_parked_steps {className : String} {program : Program} {left : Nat} {store : Store}
    {frame : Frame} {current : Option Nat} {c : Continuation}
    (hparked : (execute registry config className program left store frame current).ending =
      .parked c) :
    frame.steps < c.frame.steps ∧ c.frame.steps ≤ frame.steps + left := by
  revert hparked
  refine execute_induction (motive := fun left _ frame _ o => o.ending = .parked c →
    frame.steps < c.frame.steps ∧ c.frame.steps ≤ frame.steps + left)
    ?idle ?exhausted ?unregistered ?stop ?park ?advance left store frame current
  case idle => intros; contradiction
  case exhausted => intros; contradiction
  case unregistered => intros; contradiction
  case stop =>
    rintro left store frame index node capability run ending - - - hstop ⟨⟩
    exact absurd hstop (Verdict.ending?_ne_parked _ _)
  case park =>
    rintro left store frame index node capability run slot condition - - - - - ⟨⟩
    simp only [Frame.next]
    omega
  case advance =>
    rintro left store frame index node capability run slot rest - - - - - ih hparked
    have hsteps := ih hparked
    simp only [Frame.next] at hsteps
    omega

theorem resumeIn_parked_steps {found : Store} {c c' : Continuation}
    (hparked : (resumeIn registry config graph found c).ending = .parked c') :
    c.frame.steps < c'.frame.steps ∧ c'.frame.steps ≤ config.stepBudget := by
  simp only [resumeIn, resume, continueFrame] at hparked
  split at hparked
  · contradiction
  · have hsteps := execute_parked_steps hparked
    omega

end Steps

namespace Parts

variable {registry : Registry} {config : RuntimeConfig} {graph : BoundGraph}
  {found : Nat → Store → Store} {n : Nat} {o : Outcome} {parts : List Outcome}

theorem unique (h : Parts registry config graph found n o parts) {other : List Outcome}
    (hother : Parts registry config graph found n o other) : other = parts := by
  induction h generalizing other with
  | last hended =>
      cases hother with
      | last _ => rfl
      | resumed _ hparked _ => exact absurd hparked (hended _)
  | resumed condition hparked hrest ih =>
      cases hother with
      | last hended => exact absurd hparked (hended _)
      | resumed condition' hparked' hrest' =>
          rw [hparked] at hparked'
          cases hparked'
          rw [ih hrest']

theorem iff_eq (h : Parts registry config graph found n o parts) (other : List Outcome) :
    Parts registry config graph found n o other ↔ other = parts := by
  constructor
  · exact h.unique
  · rintro rfl
    exact h

variable (registry config graph found)

theorem exists_of_left (left n : Nat) (o : Outcome)
    (hleft : ∀ c, o.ending = .parked c → config.stepBudget - c.frame.steps < left) :
    ∃ parts, Parts registry config graph found n o parts := by
  induction left generalizing n o with
  | zero =>
      refine ⟨[o], .last fun c hparked => ?_⟩
      exact Nat.not_lt_zero _ (hleft c hparked)
  | succ left ih =>
      cases hending : o.ending with
      | parked c =>
          have hc := hleft c hending
          obtain ⟨rest, hrest⟩ := ih (n + 1)
            (resumeIn registry config graph (found n o.store) c) fun c' hparked => by
              have hsteps := resumeIn_parked_steps hparked
              omega
          exact ⟨o :: rest, .resumed c.condition hending hrest⟩
      | finished => exact ⟨[o], .last (by simp [hending])⟩
      | aborted e => exact ⟨[o], .last (by simp [hending])⟩
      | panicked => exact ⟨[o], .last (by simp [hending])⟩

theorem exist (n : Nat) (o : Outcome) : ∃ parts, Parts registry config graph found n o parts :=
  exists_of_left registry config graph found (config.stepBudget + 1) n o fun c _ => by omega

end Parts

end Nodeflow
