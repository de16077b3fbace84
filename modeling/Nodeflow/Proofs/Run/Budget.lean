import Mathlib.Logic.Function.Iterate
import Nodeflow.Proofs.Run.Chain

/-!
# What the step budget cuts off

A chain that no budget limits is followed node by node, across the waits.  The budget does
not change what any node does.  A chain that ends within the budget is therefore the same
as without one, and of any other chain the budget leaves the first nodes, as many as it
has steps.
-/

namespace Nodeflow

/-! ## Chains without a budget -/

structure Point where
  trace : List TraceEvent
  store : Store
  frame : Frame
  index : Nat
  node : ReadyNode

/-- What has come of a chain that no budget limits. -/
structure Course where
  entered : List Nat
  parts : List Outcome
  next : Option Point

namespace Course

def comeTo (program : Program) (entered : List Nat) (parts : List Outcome)
    (trace : List TraceEvent) (store : Store) (frame : Frame) : Option Nat → Course
  | none => ⟨entered, parts ++ [⟨store, trace, .finished⟩], none⟩
  | some index =>
      match program.node? index with
      | none => ⟨entered, parts ++ [⟨store, trace, .finished⟩], none⟩
      | some node => ⟨entered, parts, some ⟨trace, store, frame, index, node⟩⟩

section

variable (registry : Registry) (config : RuntimeConfig) (className : String) (program : Program)
  (found : Nat → Store → Store)

def step (course : Course) : Course :=
  match course.next with
  | none => course
  | some ⟨trace, store, frame, index, node⟩ =>
      match registry.get? node.capability with
      | none => ⟨course.entered, course.parts ++ [⟨store, trace, .finished⟩], none⟩
      | some capability =>
          let run := runNode config index node capability store frame.scope
          let entered := course.entered ++ [index]
          let frame := frame.next run
          match run.verdict with
          | .abort e =>
              ⟨entered, course.parts ++ [⟨run.store, trace ++ run.trace, .aborted e⟩], none⟩
          | .panic =>
              ⟨entered, course.parts ++ [⟨run.store, trace ++ run.trace, .panicked⟩], none⟩
          | .park slot condition =>
              let part : Outcome :=
                ⟨run.store, trace ++ run.trace ++ [.suspended frame.event index],
                  .parked ⟨className, frame, index, slot, condition⟩⟩
              comeTo program entered (course.parts ++ [part]) [.resumed frame.event index]
                (found course.parts.length run.store) frame
                (slot.bind (program.successor? index))
          | .advance slot =>
              comeTo program entered course.parts (trace ++ run.trace) run.store frame
                (slot.bind (program.successor? index))

end

def cut (budget : Nat) (course : Course) : List Outcome :=
  match course.next with
  | none => course.parts
  | some point =>
      course.parts ++ [⟨point.store, point.trace, .aborted (.stepBudgetExceeded budget)⟩]

end Course

def BoundGraph.course (registry : Registry) (config : RuntimeConfig) (graph : BoundGraph)
    (found : Nat → Store → Store) (object : Object) (event : String) (args : EventArgs)
    (nodes : Nat) : Course :=
  let store : Store := ⟨object, graph.vars⟩
  match graph.blueprint.events.find? event with
  | none => ⟨[], [⟨store, [], .finished⟩], none⟩
  | some program =>
      (Course.step registry config graph.className program found)^[nodes]
        (.comeTo program [] [] [] store (.start event args) program.entry?)

/-! ## The budget and single nodes -/

def RuntimeConfig.withBudget (config : RuntimeConfig) (budget : Nat) : RuntimeConfig :=
  { config with stepBudget := budget }

theorem runNode_withBudget (config : RuntimeConfig) (budget index : Nat) (node : ReadyNode)
    (capability : Capability) (store : Store) (scope : LocalScope) :
    runNode (config.withBudget budget) index node capability store scope =
      runNode config index node capability store scope := by
  have hoperations : (config.withBudget budget).maxOperations = config.maxOperations := rfl
  simp only [runNode, arguments_congr hoperations]
  rfl

/-! ## Node by node -/

namespace Course

variable {registry : Registry} {config : RuntimeConfig} {className : String} {program : Program}
  {found : Nat → Store → Store} {entered : List Nat} {parts : List Outcome}
  {trace : List TraceEvent} {store : Store} {frame : Frame} {index : Nat} {node : ReadyNode}
  {capability : Capability} {run : NodeRun} {slot : Option Nat}

theorem comeTo_idle {current : Option Nat} (hidle : current.bind program.node? = none) :
    comeTo program entered parts trace store frame current =
      ⟨entered, parts ++ [⟨store, trace, .finished⟩], none⟩ := by
  cases current with
  | none => rfl
  | some index =>
      have hnode : program.node? index = none := hidle
      simp only [comeTo, hnode]

theorem comeTo_ready (hnode : program.node? index = some node) :
    comeTo program entered parts trace store frame (some index) =
      ⟨entered, parts, some ⟨trace, store, frame, index, node⟩⟩ := by
  simp only [comeTo, hnode]

theorem iterate_step_ended (n : Nat) {course : Course} (hended : course.next = none) :
    (step registry config className program found)^[n] course = course := by
  refine Function.iterate_fixed ?_ n
  simp only [step, hended]

theorem step_unregistered (hcapability : registry.get? node.capability = none) :
    step registry config className program found
        ⟨entered, parts, some ⟨trace, store, frame, index, node⟩⟩ =
      ⟨entered, parts ++ [⟨store, trace, .finished⟩], none⟩ := by
  simp only [step, hcapability]

section Registered

variable (hcapability : registry.get? node.capability = some capability)
  (hrun : run = runNode config index node capability store frame.scope)
include hcapability hrun

theorem step_stop {ending : Ending} (hstop : run.verdict.ending? = some ending) :
    step registry config className program found
        ⟨entered, parts, some ⟨trace, store, frame, index, node⟩⟩ =
      ⟨entered ++ [index], parts ++ [⟨run.store, trace ++ run.trace, ending⟩], none⟩ := by
  subst hrun
  obtain ⟨error, hverdict, rfl⟩ | ⟨hverdict, rfl⟩ := Verdict.ending?_eq_some.1 hstop
  · simp only [step, hcapability, hverdict]
  · simp only [step, hcapability, hverdict]

theorem step_park {condition : Condition} (hverdict : run.verdict = .park slot condition) :
    step registry config className program found
        ⟨entered, parts, some ⟨trace, store, frame, index, node⟩⟩ =
      comeTo program (entered ++ [index])
        (parts ++ [⟨run.store, trace ++ run.trace ++ [.suspended frame.event index],
          .parked ⟨className, frame.next run, index, slot, condition⟩⟩])
        [.resumed frame.event index] (found parts.length run.store) (frame.next run)
        (slot.bind (program.successor? index)) := by
  subst hrun
  simp only [step, hcapability, hverdict]
  rfl

theorem step_advance (hverdict : run.verdict = .advance slot) :
    step registry config className program found
        ⟨entered, parts, some ⟨trace, store, frame, index, node⟩⟩ =
      comeTo program (entered ++ [index]) parts (trace ++ run.trace) run.store (frame.next run)
        (slot.bind (program.successor? index)) := by
  subst hrun
  simp only [step, hcapability, hverdict]

end Registered

end Course

/-! ## Runs under a budget -/

section Budget

variable (registry : Registry) (config : RuntimeConfig) (found : Nat → Store → Store)
  (budget : Nat) {graph : BoundGraph} {program : Program}

/--
A part under way goes on under a budget as the chain does without one, for as many nodes
as the budget has steps left.
-/
theorem parts_eq_cut (left : Nat) (store : Store) (frame : Frame) (current : Option Nat)
    (hprogram : graph.blueprint.events.find? frame.event = some program)
    (hleft : left = budget - frame.steps) (entered : List Nat) (parts : List Outcome)
    (trace : List TraceEvent) :
    ∃ rest,
      Parts registry (config.withBudget budget) graph found parts.length
        ((execute registry (config.withBudget budget) graph.className program left store frame
          current).after trace) rest ∧
      parts ++ rest =
        ((Course.step registry config graph.className program found)^[left]
          (.comeTo program entered parts trace store frame current)).cut budget := by
  revert hprogram hleft entered parts trace
  refine execute_induction (motive := fun left store frame current o =>
    graph.blueprint.events.find? frame.event = some program → left = budget - frame.steps →
    ∀ entered parts trace, ∃ rest,
      Parts registry (config.withBudget budget) graph found parts.length (o.after trace) rest ∧
      parts ++ rest =
        ((Course.step registry config graph.className program found)^[left]
          (.comeTo program entered parts trace store frame current)).cut budget)
    ?idle ?exhausted ?unregistered ?stop ?park ?advance left store frame current
  case idle =>
    intro left store frame current hidle _ _ entered parts trace
    refine ⟨_, .last (by simp [Outcome.after]), ?_⟩
    rw [Course.comeTo_idle hidle, Course.iterate_step_ended left rfl]
    simp [Course.cut, Outcome.after]
  case exhausted =>
    intro store frame index node hnode _ _ entered parts trace
    refine ⟨_, .last (by simp [Outcome.after]), ?_⟩
    rw [Course.comeTo_ready hnode]
    simp [Course.cut, Outcome.after, RuntimeConfig.withBudget]
  case unregistered =>
    intro left store frame index node hnode hcapability _ _ entered parts trace
    refine ⟨_, .last (by simp [Outcome.after]), ?_⟩
    rw [Course.comeTo_ready hnode, Function.iterate_succ_apply,
      Course.step_unregistered hcapability, Course.iterate_step_ended left rfl]
    simp [Course.cut, Outcome.after]
  case stop =>
    intro left store frame index node capability run ending hnode hcapability hrun hstop _ _
      entered parts trace
    rw [runNode_withBudget] at hrun
    have hover : ∀ c, ending ≠ .parked c := by
      rintro c rfl
      exact Verdict.ending?_ne_parked _ _ hstop
    refine ⟨_, .last hover, ?_⟩
    rw [Course.comeTo_ready hnode, Function.iterate_succ_apply,
      Course.step_stop hcapability hrun hstop, Course.iterate_step_ended left rfl]
    rfl
  case park =>
    intro left store frame index node capability run slot condition hnode hcapability hrun
      hverdict ih hprogram hleft entered parts trace
    rw [runNode_withBudget] at hrun
    have hnext : left = budget - (frame.next run).steps := by
      simp only [Frame.next]
      omega
    rw [Course.comeTo_ready hnode, Function.iterate_succ_apply,
      Course.step_park hcapability hrun hverdict]
    -- The resumption has a part of its own, with what is left of the budget.
    obtain ⟨rest, hrest, hcut⟩ := ih (found parts.length run.store) hprogram hnext
      (entered ++ [index]) (parts ++ [_]) [.resumed frame.event index]
    rw [List.length_append, List.length_singleton] at hrest
    refine ⟨_ :: rest, .resumed condition rfl ?_, ?_⟩
    · rw [resumeIn_eq _ hprogram]
      exact hnext ▸ hrest
    · rw [← hcut]
      simp [Outcome.after]
  case advance =>
    intro left store frame index node capability run slot rest hnode hcapability hrun hverdict
      hrest ih hprogram hleft entered parts trace
    rw [runNode_withBudget] at hrun
    have hnext : left = budget - (frame.next run).steps := by
      simp only [Frame.next]
      omega
    rw [Course.comeTo_ready hnode, Function.iterate_succ_apply,
      Course.step_advance hcapability hrun hverdict]
    obtain ⟨rest', hparts, hcut⟩ := ih hprogram hnext (entered ++ [index]) parts
      (trace ++ run.trace)
    refine ⟨rest', ?_, hcut⟩
    simpa [Outcome.after] using hparts

end Budget

/-! ## Nodes entered -/

def enteredIn (parts : List Outcome) : List Nat :=
  parts.flatMap fun part => part.trace.filterMap TraceEvent.entered?

namespace Course

structure Tallied (config : RuntimeConfig) (nodes : Nat) (course : Course) : Prop where
  length_le : course.entered.length ≤ nodes
  length_eq : course.next ≠ none → course.entered.length = nodes
  recorded : ∀ budget,
    enteredIn (course.cut budget) = if config.traceNodes then course.entered else []

namespace Tallied

variable {config : RuntimeConfig} {nodes : Nat}

theorem ended {entered : List Nat} {parts : List Outcome} (hlength : entered.length ≤ nodes)
    (hrecorded : enteredIn parts = if config.traceNodes then entered else []) :
    Tallied config nodes ⟨entered, parts, none⟩ :=
  ⟨hlength, fun hnext => absurd rfl hnext, fun _ => hrecorded⟩

theorem comeTo {program : Program} {entered : List Nat} {parts : List Outcome}
    {trace : List TraceEvent} (store : Store) (frame : Frame) (current : Option Nat)
    (hlength : entered.length = nodes)
    (hrecorded : enteredIn parts ++ trace.filterMap TraceEvent.entered? =
      if config.traceNodes then entered else []) :
    Tallied config nodes (Course.comeTo program entered parts trace store frame current) := by
  have hlast : ∀ ending, enteredIn (parts ++ [⟨store, trace, ending⟩]) =
      if config.traceNodes then entered else [] := by
    intro ending
    simpa [enteredIn] using hrecorded
  cases hnode : current.bind program.node? with
  | none =>
      rw [comeTo_idle hnode]
      exact .ended (Nat.le_of_eq hlength) (hlast _)
  | some node =>
      obtain ⟨index, rfl, hnode⟩ := Option.bind_eq_some_iff.1 hnode
      rw [comeTo_ready hnode]
      exact ⟨Nat.le_of_eq hlength, fun _ => hlength, fun budget => hlast _⟩

theorem step {registry : Registry} {className : String} {program : Program}
    {found : Nat → Store → Store} {course : Course} (h : Tallied config nodes course) :
    Tallied config (nodes + 1) (course.step registry config className program found) := by
  obtain ⟨entered, parts, next⟩ := course
  cases next with
  | none => exact .ended (Nat.le_succ_of_le h.length_le) (h.recorded 0)
  | some point =>
      obtain ⟨trace, store, frame, index, node⟩ := point
      have hlength : entered.length = nodes := h.length_eq nofun
      have hrecorded : enteredIn parts ++ trace.filterMap TraceEvent.entered? =
          if config.traceNodes then entered else [] := by
        simpa [enteredIn, cut] using h.recorded 0
      cases hcapability : registry.get? node.capability with
      | none =>
          rw [step_unregistered hcapability]
          refine .ended (by omega) ?_
          simpa [enteredIn] using hrecorded
      | some capability =>
          generalize hrun : runNode config index node capability store frame.scope = run
          have htrace := runNode_entered config index node capability store frame.scope
          rw [hrun] at htrace
          have hlength' : (entered ++ [index]).length = nodes + 1 := by simp [hlength]
          have hrecorded' : enteredIn parts ++ (trace ++ run.trace).filterMap TraceEvent.entered? =
              if config.traceNodes then entered ++ [index] else [] := by
            rw [List.filterMap_append, ← List.append_assoc, hrecorded, htrace]
            split <;> rfl
          have hstopped : ∀ ending, run.verdict.ending? = some ending →
              Tallied config (nodes + 1) (Course.step registry config className program found
                ⟨entered, parts, some ⟨trace, store, frame, index, node⟩⟩) := by
            intro ending hstop
            rw [step_stop hcapability hrun.symm hstop]
            refine .ended (Nat.le_of_eq hlength') ?_
            simpa [enteredIn] using hrecorded'
          cases hverdict : run.verdict with
          | abort error => exact hstopped (.aborted error) (hverdict ▸ rfl)
          | panic => exact hstopped .panicked (hverdict ▸ rfl)
          | park slot condition =>
              rw [step_park hcapability hrun.symm hverdict]
              refine .comeTo _ _ _ hlength' ?_
              simpa [enteredIn, List.filterMap_cons, TraceEvent.entered?] using hrecorded'
          | advance slot =>
              rw [step_advance hcapability hrun.symm hverdict]
              exact .comeTo _ _ _ hlength' hrecorded'

theorem iterate {registry : Registry} {className : String} {program : Program}
    {found : Nat → Store → Store} {course : Course} (h : Tallied config 0 course) (nodes : Nat) :
    Tallied config nodes ((Course.step registry config className program found)^[nodes] course) := by
  induction nodes with
  | zero => exact h
  | succ nodes ih =>
      rw [Function.iterate_succ_apply']
      exact ih.step

end Tallied

end Course

/-! ## Whole chains -/

section Chain

variable (registry : Registry) (config : RuntimeConfig) (graph : BoundGraph)
  (found : Nat → Store → Store) (object : Object) (event : String) (args : EventArgs)

theorem course_tallied (nodes : Nat) :
    (graph.course registry config found object event args nodes).Tallied config nodes := by
  unfold BoundGraph.course
  cases graph.blueprint.events.find? event with
  | none =>
      refine .ended (Nat.zero_le _) ?_
      simp [enteredIn]
  | some program =>
      refine .iterate (.comeTo _ _ _ rfl ?_) nodes
      simp [enteredIn]

theorem course_ended {nodes more : Nat}
    (hended : (graph.course registry config found object event args nodes).next = none)
    (hmore : nodes ≤ more) :
    graph.course registry config found object event args more =
      graph.course registry config found object event args nodes := by
  unfold BoundGraph.course at hended ⊢
  cases hprogram : graph.blueprint.events.find? event with
  | none => rfl
  | some program =>
      simp only [hprogram] at hended ⊢
      obtain ⟨extra, rfl⟩ := Nat.exists_eq_add_of_le' hmore
      rw [Function.iterate_add_apply]
      exact Course.iterate_step_ended extra hended

theorem runEvent_parts (budget : Nat) :
    Parts registry (config.withBudget budget) graph found 0
      (runEvent registry (config.withBudget budget) graph object event args)
      ((graph.course registry config found object event args budget).cut budget) := by
  unfold BoundGraph.course
  cases hprogram : graph.blueprint.events.find? event with
  | none =>
      rw [runEvent_undefined hprogram]
      exact .last nofun
  | some program =>
      obtain ⟨parts, hparts, hcut⟩ := parts_eq_cut registry config found budget budget
        ⟨object, graph.vars⟩ (.start event args) program.entry? hprogram rfl [] [] []
      rw [runEvent_eq hprogram]
      exact hcut ▸ hparts

/--
The budget cuts a chain exactly, whatever happens to the store between its parts.  Of the
chain that no budget limits it lets the first `budget` nodes be executed, and traces that
record nodes tell just these.  If the chain has ended by then, it is the same under every
larger budget.  Otherwise `budget` nodes have been executed, and the part under way is aborted
where the next one is ready.
-/
theorem runEvent_cut (budget : Nat) :
    let course := graph.course registry config found object event args
    let chain := fun budget => Parts registry (config.withBudget budget) graph found 0
      (runEvent registry (config.withBudget budget) graph object event args)
    (course budget).entered.length ≤ budget ∧
    (∀ parts, chain budget parts →
      enteredIn parts = if config.traceNodes then (course budget).entered else []) ∧
    match (course budget).next with
    | none => ∀ more, budget ≤ more →
        course more = course budget ∧ ∀ parts, chain more parts ↔ parts = (course budget).parts
    | some point => (course budget).entered.length = budget ∧
        ∀ parts, chain budget parts ↔ parts = (course budget).parts ++
          [⟨point.store, point.trace, .aborted (.stepBudgetExceeded budget)⟩] := by
  intro course chain
  have htallied := course_tallied registry config graph found object event args budget
  have hchain : ∀ budget parts, chain budget parts ↔ parts = (course budget).cut budget :=
    fun budget => (runEvent_parts registry config graph found object event args budget).iff_eq
  refine ⟨htallied.length_le, ?_, ?_⟩
  · intro parts hparts
    rw [(hchain budget parts).1 hparts]
    exact htallied.recorded budget
  · cases hnext : (course budget).next with
    | none =>
        intro more hmore
        have hsame := course_ended registry config graph found object event args hnext hmore
        refine ⟨hsame, fun parts => ?_⟩
        rw [hchain more, show course more = course budget from hsame]
        simp only [Course.cut, hnext]
    | some point =>
        refine ⟨htallied.length_eq (by simp [course, hnext]), fun parts => ?_⟩
        rw [hchain budget]
        simp only [Course.cut, hnext]

end Chain

end Nodeflow
