import Nodeflow.Proofs.Capability.Effects
import Nodeflow.Proofs.Run.Path

/-!
# Where aborted runs stop

A run that is aborted has executed the nodes before the one that it stops at, each of which
went on at once, and has left the store as it was when it came to that node.  This holds of
errors that come before the capability of a node is called, and, over the built-in and
gameplay capabilities, of all others, as long as the object refuses fields cleanly.
-/

namespace Nodeflow

def ExecError.node? : ExecError → Option Nat
  | .parameter node _ _ _ => some node
  | .capability node _ _ => some node
  | .illegalSuspend node _ => some node
  | .stepBudgetExceeded _ => none

def ExecError.precedesCall : ExecError → Bool
  | .parameter _ _ _ _ => true
  | .stepBudgetExceeded _ => true
  | .capability _ _ _ => false
  | .illegalSuspend _ _ => false

def Program.Uses (p : Program) (registry : Registry) (capabilities : List Capability) : Prop :=
  ∀ index node c, p.node? index = some node → registry.get? node.capability = some c →
    c ∈ capabilities

section Run

variable (registry : Registry) (config : RuntimeConfig) (program : Program)

/--
A run that begins at `current`, with a store and local names, comes to a node.  The visits are
those of the nodes it has executed before, from each of which it went on at once.
-/
inductive Comes : Option Nat → Store → LocalScope → List Visit → Nat → Store → LocalScope → Prop
  | here (index : Nat) (store : Store) (scope : LocalScope) :
      Comes (some index) store scope [] index store scope
  | passed {v : Visit} {slot : Option Nat} {visits : List Visit} {index : Nat} {store : Store}
      {scope : LocalScope} (hv : v.In registry program)
      (hverdict : (v.run config).verdict = .advance slot)
      (hrest : Comes (slot.bind (program.successor? v.index)) (v.run config).store
        (v.run config).scope visits index store scope) :
      Comes (some v.index) v.store v.scope (v :: visits) index store scope

inductive Stops (left : Nat) (visits : List Visit) (index : Nat) (store : Store)
    (scope : LocalScope) : ExecError → Prop
  | exhausted (hready : (program.node? index).isSome) (hleft : visits.length = left) :
      Stops left visits index store scope (.stepBudgetExceeded config.stepBudget)
  | failed {node : ReadyNode} {capability : Capability} {error : ExecError}
      (hnode : program.node? index = some node)
      (hcapability : registry.get? node.capability = some capability)
      (hverdict : (runNode config index node capability store scope).verdict = .abort error) :
      Stops left visits index store scope error

/--
A run is aborted at a node, after some visits: what it leaves is the store that it came to the
node with, and what it shows is what the visits have shown, and that the node was entered.
-/
structure AbortsAt (left : Nat) (current : Option Nat) (found : Store) (scope : LocalScope)
    (visits : List Visit) (index : Nat) (store : Store) (trace : List TraceEvent)
    (error : ExecError) : Prop where
  comes : ∃ scope', Comes registry config program current found scope visits index store scope' ∧
    Stops registry config program left visits index store scope' error
  names : ∀ n ∈ error.node?, n = index
  shows : trace = shown config visits ++
    if error.node?.isSome && config.traceNodes then [.entered index] else []

/-- Nothing can fail with the error after it has had an effect. -/
def FailsFirst (object : Object) (error : ExecError) : Prop :=
  error.precedesCall = true ∨
    program.Uses registry (Builtin.all ++ Gameplay.all) ∧ object.RefusesCleanly

end Run

/-! ## One node -/

theorem Object.RefusesCleanly.after {o : Object} (h : o.RefusesCleanly) (d : Descriptor)
    {owner : Option Object} (howner : ∀ changed ∈ owner, changed.RefusesCleanly) :
    (o.after d owner).RefusesCleanly := by
  unfold Object.after
  split
  · cases owner with
    | none => exact h
    | some changed => exact howner changed rfl
  · exact h

section Node

variable {config : RuntimeConfig} {index : Nat} {node : ReadyNode} {capability : Capability}
  {store : Store} {scope : LocalScope}

theorem callContext_clean (hobject : store.object.RefusesCleanly)
    (args : List (String × Value)) : (callContext capability store scope args).Clean := by
  intro o ho
  simp only [callContext] at ho
  split at ho
  · cases ho
    exact hobject
  · contradiction

theorem after_callContext (args : List (String × Value)) :
    (⟨store.object.after capability.descriptor (callContext capability store scope args).owner,
      (callContext capability store scope args).vars⟩ : Store) = store := by
  simp only [callContext, Object.after]
  split <;> rfl

theorem runNode_refusesCleanly (hcapability : capability.Tidy)
    (hobject : store.object.RefusesCleanly) :
    (runNode config index node capability store scope).store.object.RefusesCleanly := by
  simp only [runNode]
  split
  · exact hobject
  · rename_i args _
    have hclean : (callContext capability store scope args).Clean :=
      callContext_clean hobject args
    simp only [callNode_eq]
    cases hcall : capability.invoke.run.run (callContext capability store scope args) with
    | mk result after =>
        refine hobject.after _ ?_
        cases result with
        | error error => exact hcapability.failed hclean hcall ▸ hclean
        | ok invocation => exact (hcapability.returned hclean hcall).1

theorem runNode_names {error : ExecError}
    (hverdict : (runNode config index node capability store scope).verdict = .abort error) :
    error.node? = some index := by
  simp only [runNode] at hverdict
  split at hverdict
  · cases hverdict
    rfl
  · simp only [callNode_eq, verdictOf] at hverdict
    split at hverdict
    · cases hverdict
      rfl
    · contradiction
    · split at hverdict
      · contradiction
      · cases hverdict
        rfl
    · split at hverdict <;> contradiction

theorem runNode_leaves {error : ExecError}
    (hverdict : (runNode config index node capability store scope).verdict = .abort error)
    (hfirst : error.precedesCall = true ∨ capability.Tidy ∧ store.object.RefusesCleanly) :
    (runNode config index node capability store scope).store = store ∧
      (runNode config index node capability store scope).trace =
        (if config.traceNodes then [.entered index] else []) := by
  simp only [runNode] at hverdict ⊢
  split at hverdict
  · exact ⟨rfl, rfl⟩
  · rename_i args _
    simp only [callNode_eq] at hverdict ⊢
    cases hcall : capability.invoke.run.run (callContext capability store scope args) with
    | mk result after =>
        rw [hcall] at hverdict
        cases result with
        | error e =>
            cases hverdict
            obtain ⟨htidy, hobject⟩ := hfirst.resolve_left Bool.false_ne_true
            obtain rfl := htidy.failed (callContext_clean hobject args) hcall
            exact ⟨after_callContext args, List.append_nil _⟩
        | ok invocation =>
            cases invocation with
            | panic => contradiction
            | done v =>
                simp only [verdictOf] at hverdict
                split at hverdict <;> contradiction
            | suspend v condition =>
                simp only [verdictOf] at hverdict
                split at hverdict
                · contradiction
                · rename_i hlatent
                  cases hverdict
                  obtain ⟨htidy, hobject⟩ := hfirst.resolve_left Bool.false_ne_true
                  have hpost := (htidy.returned (callContext_clean hobject args) hcall).2
                  exact absurd (hpost v condition rfl) hlatent

end Node

/-! ## Whole runs -/

section Execute

variable {registry : Registry} {config : RuntimeConfig} {program : Program}

theorem Program.Uses.tidy (h : program.Uses registry (Builtin.all ++ Gameplay.all)) {index : Nat}
    {node : ReadyNode} {c : Capability} (hnode : program.node? index = some node)
    (hc : registry.get? node.capability = some c) : c.Tidy :=
  tidy_of_mem (h index node c hnode hc)

theorem Stops.cons {left : Nat} {visits : List Visit} {index : Nat} {store : Store}
    {scope : LocalScope} {error : ExecError}
    (h : Stops registry config program left visits index store scope error) (v : Visit) :
    Stops registry config program (left + 1) (v :: visits) index store scope error := by
  cases h with
  | exhausted hready hleft => exact .exhausted hready (congrArg (· + 1) hleft)
  | failed hnode hcapability hverdict => exact .failed hnode hcapability hverdict

theorem execute_aborted {className : String} {left : Nat} {store : Store} {frame : Frame}
    {current : Option Nat} {error : ExecError}
    (haborted : (execute registry config className program left store frame current).ending =
      .aborted error)
    (hfirst : FailsFirst registry program store.object error) :
    ∃ visits index, AbortsAt registry config program left current store frame.scope visits index
      (execute registry config className program left store frame current).store
      (execute registry config className program left store frame current).trace error := by
  revert haborted hfirst
  refine execute_induction (motive := fun left store frame current o =>
    o.ending = .aborted error → FailsFirst registry program store.object error →
    ∃ visits index, AbortsAt registry config program left current store frame.scope visits index
      o.store o.trace error)
    ?idle ?exhausted ?unregistered ?stop ?park ?advance left store frame current
  case idle => intros; contradiction
  case unregistered => intros; contradiction
  case park => intros; contradiction
  case exhausted =>
    rintro store frame index node hnode ⟨⟩ -
    exact ⟨[], index, ⟨frame.scope, .here .., .exhausted (by simp [hnode]) rfl⟩, nofun, rfl⟩
  case stop =>
    rintro left store frame index node capability run ending hnode hcapability rfl hstop ⟨⟩
      hfirst
    obtain ⟨_, hverdict, ⟨⟩⟩ | ⟨-, ⟨⟩⟩ := Verdict.ending?_eq_some.1 hstop
    have htidy : error.precedesCall = true ∨ capability.Tidy ∧ store.object.RefusesCleanly :=
      hfirst.imp id fun h => ⟨h.1.tidy hnode hcapability, h.2⟩
    have hnamed := runNode_names hverdict
    obtain ⟨hstore, htrace⟩ := runNode_leaves hverdict htidy
    refine ⟨[], index, ⟨frame.scope, ?_⟩, by simp [hnamed], ?_⟩
    · rw [hstore]
      exact ⟨.here .., .failed hnode hcapability hverdict⟩
    · rw [htrace, hnamed]
      rfl
  case advance =>
    rintro left store frame index node capability run slot rest hnode hcapability rfl hverdict -
      ih haborted hfirst
    let v : Visit := ⟨index, node, capability, store, frame.scope⟩
    have hlater : FailsFirst registry program (v.run config).store.object error :=
      hfirst.imp id fun h =>
        ⟨h.1, runNode_refusesCleanly (h.1.tidy hnode hcapability) h.2⟩
    obtain ⟨visits, last, ⟨scope, hcomes, hstops⟩, hnames, hshows⟩ := ih haborted hlater
    refine ⟨v :: visits, last, ⟨scope, ?_, hstops.cons v⟩, hnames, ?_⟩
    · exact .passed (v := v) ⟨hnode, hcapability⟩ hverdict hcomes
    · rw [Outcome.after, hshows, ← List.append_assoc]
      rfl

end Execute

end Nodeflow
