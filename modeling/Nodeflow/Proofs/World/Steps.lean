import Nodeflow.Proofs.Program.Inert
import Nodeflow.Proofs.Run.Walk
import Nodeflow.Proofs.World.Trails

/-!
# The step budget raises no false alarm

Whatever is parked in a world was cut after a walk of as many nodes as it has counted.  So only
a walk of more nodes than the budget allows can exhaust it, and a program has none whose
accepted links lead over no more nodes than that, and from none of them back to itself.
-/

namespace Nodeflow

namespace World

variable {w w' : World} {registry : Registry} {config : RuntimeConfig}

theorem Runs.unique {className event : String} {program other : Program}
    (h : w.Runs registry config className event program)
    (hother : w.Runs registry config className event other) : other = program := by
  obtain ⟨c, hc, rfl, b, hb, hprogram⟩ := h.program
  obtain ⟨c', hc', hname, b', hb', hother⟩ := hother.program
  have hfound := ClassTable.get?_of_mem hc'
  rw [hname, ClassTable.get?_of_mem hc] at hfound
  obtain rfl : c = c' := Option.some.inj hfound
  obtain rfl : b = b' := Option.some.inj (hb.symm.trans hb')
  exact Option.some.inj (hother.symm.trans hprogram)

theorem Reached.runs (hw : Reached w) {id : ObjectId} {entry : Entry}
    (hentry : w.entry? id = some entry) {name : String} {graph : BoundGraph}
    (hgraph : entry.graphs.find? name = some graph) {event : String} {program : Program}
    (hprogram : graph.blueprint.events.find? event = some program) :
    w.Runs w.registry w.config name event program := by
  obtain ⟨className, hbound⟩ := hw.bound hentry
  obtain ⟨-, -, c, hc, hname, hb⟩ := hbound.sound name graph hgraph
  exact ⟨rfl, rfl, c, (ClassTable.chainIn_sublist _ _).subset hc, hname, _, hb, hprogram⟩

/-! ## What is parked -/

/-- What is parked was cut after a walk of the program that its class has for its event. -/
def Paced (w : World) (c : Continuation) : Prop :=
  ∃ program, w.Runs w.registry w.config c.className c.frame.event program ∧
    program.Walk c.frame.steps c.node

def AllPaced (w : World) : Prop :=
  ∀ p ∈ w.scheduler.parked, w.Paced p.continuation

theorem Paced.changes {c : Continuation} (h : w.Paced c) (hchanges : Changes w w') :
    w'.Paced c := by
  obtain ⟨program, hruns, hwalk⟩ := h
  exact ⟨program, ⟨rfl, rfl, (hruns.changes hchanges).program⟩, hwalk⟩

section Part

variable {id : ObjectId} {entry : Entry} {name : String} {graph : BoundGraph} {object : Object}

theorem Reached.begun_paced (hw : Reached w) (hentry : w.entry? id = some entry)
    (hgraph : entry.graphs.find? name = some graph) {event : String} {args : EventArgs}
    {c : Continuation}
    (hparked : (runEvent w.registry w.config graph object event args).ending = .parked c) :
    w.Paced c := by
  cases hprogram : graph.blueprint.events.find? event with
  | none =>
      rw [runEvent_undefined hprogram] at hparked
      contradiction
  | some program =>
      have hwalk := (runEvent_keeps hprogram).parked c hparked
      rw [runEvent_eq hprogram] at hparked
      obtain ⟨hclass, hevent, -⟩ := execute_parked hparked
      obtain ⟨spawned, hbound⟩ := hw.bound hentry
      have hname := (hbound.sound name graph hgraph).1
      refine ⟨program, ?_, hwalk⟩
      rw [hclass, hevent, hname]
      exact hw.runs hentry hgraph hprogram

theorem Reached.resumed_paced (hw : Reached w) (hentry : w.entry? id = some entry)
    {c c' : Continuation} (hgraph : entry.graphs.find? c.className = some graph)
    (hpaced : w.Paced c)
    (hparked : (resume w.registry w.config graph object c).ending = .parked c') :
    w.Paced c' := by
  obtain ⟨program, hruns, hwalk⟩ := hpaced
  obtain ⟨hname, hprogram⟩ := hruns.graph hw hentry hgraph
  have hwalk' := (resume_keeps hprogram hwalk).parked c' hparked
  rw [resume_eq hprogram] at hparked
  obtain ⟨hclass, hevent, -⟩ := execute_parked hparked
  refine ⟨program, ?_, hwalk'⟩
  rw [hclass, hevent, hname]
  exact hruns

end Part

theorem AllPaced.dispatch (h : w.AllPaced) (hw : Reached w) (id : ObjectId)
    (declared event : String) (args : EventArgs) :
    (w.dispatch id declared event args).1.AllPaced := by
  refine fun p hp => Paced.changes ?_ (dispatch_changes w id declared event args)
  unfold World.dispatch at hp
  split at hp
  · exact h p hp
  · rename_i entry hentry
    split at hp
    · simp only at hp
      split at hp
      · exact h p hp
      · rename_i found hoffer
        rcases mem_park hp with hold | ⟨c, hending, rfl⟩
        · exact h p hold
        · obtain ⟨object, ⟨-, hnever⟩ | ⟨name, graph, hgraph, -, hran⟩⟩ := offer_eq_ok hoffer
          · exact absurd hending (hnever c)
          · exact hw.begun_paced hentry hgraph (hran.symm.trans hending)
    · exact h p hp

theorem AllPaced.resumeParked (h : w.AllPaced) (hw : Reached w) {p : Parked}
    (hp : w.Paced p.continuation) : (w.resumeParked p).1.AllPaced := by
  refine fun q hq => Paced.changes ?_ (resumeParked_changes w p)
  rcases w.resumeParked_cases p with hdropped | ⟨entry, graph, hentry, hgraph⟩
  · rw [hdropped] at hq
    exact h q hq
  · rw [resumeParked_of_graph hentry hgraph] at hq
    rcases mem_park hq with hold | ⟨c, hending, rfl⟩
    · exact h q hold
    · exact hw.resumed_paced hentry hgraph hp hending

theorem AllPaced.resumeAll {ready : List Parked} (h : w.AllPaced) (hw : Reached w)
    (hready : ∀ p ∈ ready, w.Paced p.continuation) : (w.resumeAll ready).1.AllPaced := by
  induction ready generalizing w with
  | nil => exact h
  | cons p rest ih =>
      have hchanges := resumeParked_changes w p
      have hfirst := h.resumeParked hw (hready p List.mem_cons_self)
      rcases resumeAll_cons w p rest with ⟨hfst, -⟩ | hpanicked
      · rw [hfst]
        exact ih hfirst (hw.changes hchanges) fun q hq =>
          (hready q (List.mem_cons_of_mem p hq)).changes hchanges
      · rw [hpanicked]
        exact hfirst

theorem AllPaced.poll (h : w.AllPaced) (dt : Float32) :
    let polled := { w with scheduler := (w.scheduler.poll dt).1 }
    polled.AllPaced ∧ ∀ p ∈ (w.scheduler.poll dt).2, polled.Paced p.continuation := by
  intro polled
  have hchange : Changes w polled := .single (.poll dt)
  constructor
  · intro q hq
    obtain ⟨p, hp, rfl⟩ := Scheduler.mem_poll (.inl hq)
    exact (h p hp).changes hchange
  · intro q hq
    obtain ⟨p, hp, rfl⟩ := Scheduler.mem_poll (.inr hq)
    exact (h p hp).changes hchange

theorem AllPaced.perform (h : w.AllPaced) (hw : Reached w) (operation : Operation) :
    (w.perform operation).1.AllPaced := by
  have hchanges := perform_changes w operation
  have hkept : (∀ p ∈ (w.perform operation).1.scheduler.parked, p ∈ w.scheduler.parked) →
      (w.perform operation).1.AllPaced :=
    fun hsub p hp => (h p (hsub p hp)).changes hchanges
  cases hqueue : leavesQueue operation with
  | true => exact hkept fun p hp => perform_scheduler w operation hqueue ▸ hp
  | false =>
      cases operation with
      | dispatch id declared event args => exact h.dispatch hw id declared event args
      | tick dt =>
          obtain ⟨hall, hready⟩ := h.poll dt
          exact hall.resumeAll (hw.changes (.single (.poll dt))) hready
      | destroy id => exact hkept fun p hp => mem_parked_destroy hp
      | registerNative name parent => contradiction
      | registerGenerated name parent d => contradiction
      | spawn object => contradiction
      | setField id name value => contradiction

theorem Reachable.allPaced (hw : w.Reachable) : w.AllPaced := by
  obtain ⟨config, registry, operations, rfl⟩ := hw
  have hempty : Reached (empty config registry) := ⟨config, registry, .refl⟩
  have hall : (empty config registry).AllPaced := nofun
  revert hempty hall
  generalize empty config registry = w
  intro hw hall
  induction operations generalizing w with
  | nil => exact hall
  | cons operation rest ih =>
      exact ih _ (hw.changes (perform_changes w operation)) (hall.perform hw operation)

/-! ## What the budget ends -/

def Accounts (w : World) (className event : String) (status : Status) : Prop :=
  ∀ program, w.Runs w.registry w.config className event program →
    ∀ b, status = .aborted (.stepBudgetExceeded b) → program.Exceeds w.config.stepBudget

theorem Accounts.before {className event : String} {status : Status}
    (h : w'.Accounts className event status) (hchanges : Changes w w') :
    w.Accounts className event status := by
  intro program hruns b hb
  have hlater := hruns.changes hchanges
  rw [← hlater.config]
  exact h program ⟨rfl, rfl, hlater.program⟩ b hb

theorem Reached.dispatch_accounts (hw : Reached w) {id : ObjectId} {declared event : String}
    {args : EventArgs} {report : DispatchReport} {className : String}
    (hdispatch : (w.dispatch id declared event args).2 = .ok report)
    (hhandler : report.handler = .graph className) :
    w.Accounts className event report.status := by
  intro program hruns b hb
  obtain ⟨entry, found, graph, outcome, hentry, htakes, hreport, -⟩ :=
    dispatch_takes hdispatch hhandler
  obtain ⟨-, hprogram⟩ := hruns.graph hw hentry htakes.held
  obtain ⟨hstatus, -⟩ := htakes.report hreport
  rw [htakes.ran, hb] at hstatus
  exact (runEvent_keeps hprogram).exceeds hstatus

theorem Reached.resumeParked_accounts (hw : Reached w) {p : Parked}
    (hp : w.Paced p.continuation) {r : Resumption} (hr : (w.resumeParked p).2 = .resumed r) :
    w.Accounts r.className r.event r.status := by
  obtain ⟨entry, graph, outcome, status, hentry, hgraph, rfl, hstatus, rfl, -⟩ :=
    resumeParked_eq_resumed hr
  intro program hruns b hb
  obtain rfl : status = .aborted (.stepBudgetExceeded b) := hb
  obtain ⟨program', hruns', hwalk⟩ := hp
  obtain rfl := hruns.unique hruns'
  obtain ⟨-, hprogram⟩ := hruns.graph hw hentry hgraph
  exact (resume_keeps hprogram hwalk).exceeds hstatus

theorem Reached.resumeAll_accounts (hw : Reached w) {ready : List Parked}
    (hready : ∀ p ∈ ready, w.Paced p.continuation) :
    ∀ r ∈ (w.resumeAll ready).2.resumed, w.Accounts r.className r.event r.status := by
  induction ready generalizing w with
  | nil => nofun
  | cons p rest ih =>
      have hchanges := resumeParked_changes w p
      intro r hr
      rcases mem_resumed_cons hr with hr | hr
      · exact hw.resumeParked_accounts (hready p List.mem_cons_self) hr
      · refine (ih (hw.changes hchanges) (fun q hq => ?_) r hr).before hchanges
        exact (hready q (List.mem_cons_of_mem p hq)).changes hchanges

/--
Where no accepted links lead from a node back to itself, of all the nodes that can run and that
they lead to from the entry, and the budget has as many steps as there are such nodes, neither
an event that the graph takes nor any resumption of it is ever ended by the budget.
-/
theorem budget_suffices {w : World} (hw : w.Reachable) {c : ClassInfo}
    (hc : c ∈ w.classes.classes) {d : GraphDefinition}
    (hblueprint : c.blueprint = some (d.build w.registry w.config).blueprint) {event : String}
    {graph : EventGraph} (hgraph : d.events.find? event = some graph) {program : Program}
    (hprogram : program = (buildEvent w.registry w.config event graph (d.start? event)).1)
    (hacyclic : ∀ i, program.Reaches graph.links i →
      ¬Relation.TransGen (program.Flows graph.links) i i)
    (hcount : {i | program.Reaches graph.links i}.ncard ≤ w.config.stepBudget) :
    (∀ id declared args report budget, (w.dispatch id declared event args).2 = .ok report →
      report.handler = .graph c.name → report.status ≠ .aborted (.stepBudgetExceeded budget)) ∧
    ∀ dt budget, ∀ r ∈ (w.tick dt).2.resumed, r.className = c.name → r.event = event →
      r.status ≠ .aborted (.stepBudgetExceeded budget) := by
  have hruns : w.Runs w.registry w.config c.name event program := by
    refine ⟨rfl, rfl, c, hc, rfl, _, hblueprint, ?_⟩
    rw [GraphDefinition.find?_build_events, hgraph, Option.map_some, hprogram]
  have hfits : ¬program.Exceeds w.config.stepBudget := by
    rintro ⟨n, i, hn, hwalk⟩
    have hlinks : ∀ i slot j, program.successor? i slot = some j →
        program.Linked graph.links i j := by
      rw [hprogram]
      exact fun i slot j => buildEvent_linked
    have := hwalk.le_ncard hlinks hacyclic
    omega
  constructor
  · intro id declared args report budget hdispatch hhandler hstatus
    exact hfits (hw.reached.dispatch_accounts hdispatch hhandler program hruns budget hstatus)
  · rintro dt budget r hr hclass rfl hstatus
    obtain ⟨-, hready⟩ := hw.allPaced.poll dt
    have hpoll : Changes w { w with scheduler := (w.scheduler.poll dt).1 } := .single (.poll dt)
    have haccounts :=
      ((hw.reached.changes hpoll).resumeAll_accounts hready r hr).before hpoll
    exact hfits (haccounts program (hclass ▸ hruns) budget hstatus)

def tightWorld : World :=
  (empty { RuntimeConfig.default with stepBudget := 2 }
    (Registry.empty.registerAll [Builtin.nextTick]).1).performAll
    [.registerGenerated "Enemy" none waitTwice, .spawn (.actor "Enemy"),
      .dispatch ⟨0, 0⟩ "Enemy" "Hit" ∅]

theorem budget_suffices_tight :
    tightWorld.Reachable ∧ tightWorld.config.stepBudget = 2 ∧
      (tightWorld.tick 1).2.resumed.map Resumption.trace =
        [[.resumed "Hit" 0, .entered 1, .suspended "Hit" 1]] ∧
      ∀ dt budget, ∀ r ∈ (tightWorld.tick dt).2.resumed, r.className = "Enemy" →
        r.event = "Hit" → r.status ≠ .aborted (.stepBudgetExceeded budget) := by
  have hreachable : tightWorld.Reachable := ⟨_, _, _, rfl⟩
  have hbudget : tightWorld.config.stepBudget = 2 := by cbv
  have hclasses : tightWorld.classes.classes = [.generated "Enemy" none
      (waitTwice.build tightWorld.registry tightWorld.config)] := by cbv
  have hgraph : waitTwice.events.find? "Hit" = some ⟨[⟨"NextTick", [], .origin⟩,
      ⟨"NextTick", [], .origin⟩], [⟨0, 1, 0⟩]⟩ := by cbv
  have hclass : ClassInfo.generated "Enemy" none
      (waitTwice.build tightWorld.registry tightWorld.config) ∈ tightWorld.classes.classes := by
    rw [hclasses]
    exact List.mem_singleton_self _
  have hlater : ∀ {p : Program} {i j : Nat},
      Relation.TransGen (p.Flows [⟨0, 1, 0⟩]) i j → i < j := by
    intro p i j h
    have hstep : ∀ i j, p.Flows [⟨0, 1, 0⟩] i j → i < j := by
      rintro i j ⟨⟨link, hlink, rfl, rfl, -⟩, -⟩
      rw [List.mem_singleton.1 hlink]
      exact Nat.one_pos
    induction h with
    | single h => exact hstep _ _ h
    | tail _ h ih => exact ih.trans (hstep _ _ h)
  have htwo := Program.ncard_reaches_le
    (buildEvent tightWorld.registry tightWorld.config "Hit"
      ⟨[⟨"NextTick", [], .origin⟩, ⟨"NextTick", [], .origin⟩], [⟨0, 1, 0⟩]⟩
      (waitTwice.start? "Hit")).1 [⟨0, 1, 0⟩]
  rw [EventGraph.length_buildEvent_nodes] at htwo
  obtain ⟨-, htick⟩ := budget_suffices hreachable hclass rfl hgraph rfl
    (fun i _ hcycle => Nat.lt_irrefl i (hlater hcycle)) (hbudget ▸ htwo)
  exact ⟨hreachable, hbudget, by cbv, htick⟩

end World

end Nodeflow
