import Nodeflow.Proofs.Run.Abort
import Nodeflow.Proofs.World.Trails

/-!
# What an aborted event leaves

An event or a continuation whose run is aborted at a node leaves the object and the variables
of its graph as the run found them when it came to the node, and parks nothing.
-/

namespace Nodeflow

theorem Object.RefusesCleanly.asked {o : Object} (h : o.RefusesCleanly) (event : String)
    (args : EventArgs) (classes : List ClassInfo) :
    (o.asked event args classes).RefusesCleanly := by
  unfold Object.asked
  induction classes generalizing o with
  | nil => exact h
  | cons c rest ih =>
      rw [List.foldl_cons]
      refine ih ?_
      split
      · exact h
      · exact h.callNative ..

theorem offer_aborted {registry : Registry} {config : RuntimeConfig} {event : String}
    {args : EventArgs} {chain : List ClassInfo} {entry : Entry} {found : Found}
    {error : ExecError} (h : offer registry config event args entry chain = .ok found)
    (haborted : found.ending = .aborted error) : ∃ name, found.handler = .graph name := by
  induction chain generalizing entry with
  | nil => contradiction
  | cons c rest ih =>
      unfold offer at h
      split at h
      · simp only at h
        split at h
        · cases h
          contradiction
        · cases h
          contradiction
        · exact ih h
      · split at h
        · exact ih h
        · cases h
          exact ⟨c.name, rfl⟩

theorem Ending.status?_eq_aborted_iff {ending : Ending} {error : ExecError} :
    ending.status? = some (.aborted error) ↔ ending = .aborted error := by
  cases ending <;> simp [Ending.status?]

namespace World

variable {w : World}

theorem dispatch_aborted {id : ObjectId} {declared event : String} {args : EventArgs}
    {report : DispatchReport} {error : ExecError}
    (hdispatch : (w.dispatch id declared event args).2 = .ok report)
    (haborted : report.status = .aborted error) :
    ∃ className, report.handler = .graph className := by
  unfold dispatch at hdispatch
  split at hdispatch
  · contradiction
  · split at hdispatch
    · simp only at hdispatch
      split at hdispatch
      · contradiction
      · rename_i found hoffer
        obtain ⟨status, hstatus, rfl⟩ := Found.report_eq_ok.1 hdispatch
        obtain rfl : status = .aborted error := haborted
        exact offer_aborted hoffer (Ending.status?_eq_aborted_iff.1 hstatus)
    · cases hdispatch
      contradiction

theorem park_aborted (w : World) (owner : ObjectId) {ending : Ending} {error : ExecError}
    (h : ending = .aborted error) : w.park owner ending = w := by
  rw [h]
  rfl

end World

theorem runEvent_aborted {registry : Registry} {config : RuntimeConfig} {graph : BoundGraph}
    {object : Object} {event : String} {args : EventArgs} {error : ExecError}
    (haborted : (runEvent registry config graph object event args).ending = .aborted error) :
    ∃ program, graph.blueprint.events.find? event = some program ∧
      (FailsFirst registry program object error →
        ∃ visits index, AbortsAt registry config program config.stepBudget program.entry?
          ⟨object, graph.vars⟩ (.forEvent event args) visits index
          (runEvent registry config graph object event args).store
          (runEvent registry config graph object event args).trace error) := by
  cases hprogram : graph.blueprint.events.find? event with
  | none =>
      rw [runEvent_undefined hprogram] at haborted
      contradiction
  | some program =>
      rw [runEvent_eq hprogram] at haborted ⊢
      exact ⟨program, rfl, execute_aborted haborted⟩

theorem resume_aborted {registry : Registry} {config : RuntimeConfig} {graph : BoundGraph}
    {object : Object} {c : Continuation} {error : ExecError}
    (haborted : (resume registry config graph object c).ending = .aborted error) :
    ∃ program, graph.blueprint.events.find? c.frame.event = some program ∧
      (FailsFirst registry program object error →
        ∃ visits index trace, AbortsAt registry config program
          (config.stepBudget - c.frame.steps) (c.slot.bind (program.successor? c.node))
          ⟨object, graph.vars⟩ c.frame.scope visits index
          (resume registry config graph object c).store trace error ∧
          (resume registry config graph object c).trace =
            .resumed c.frame.event c.node :: trace) := by
  cases hprogram : graph.blueprint.events.find? c.frame.event with
  | none =>
      simp only [resume, continueFrame, hprogram] at haborted
      contradiction
  | some program =>
      rw [resume_eq hprogram] at haborted ⊢
      refine ⟨program, rfl, fun hfirst => ?_⟩
      obtain ⟨visits, index, haborts⟩ := execute_aborted haborted hfirst
      exact ⟨visits, index, _, haborts, rfl⟩

namespace World

/--
An event or a continuation whose run is aborted leaves the scheduler alone.  Where an error
comes before the capability of a node is called, and for all other errors where the graph uses
built-in and gameplay capabilities and the object refuses fields cleanly, the world is as it
was but for the object and the variables of the graph, and these are as the run found them when
it came to the node it was aborted at, with all that the nodes before it have done.  The trace
tells what these nodes have shown, and at most that the last one was entered.
-/
theorem aborts_between_nodes (w : World) :
    (∀ id declared event args report error,
      (w.dispatch id declared event args).2 = .ok report → report.status = .aborted error →
      (w.dispatch id declared event args).1.scheduler = w.scheduler ∧
      ∃ className entry graph program, report.handler = .graph className ∧
        w.entry? id = some entry ∧ entry.graphs.find? className = some graph ∧
        graph.blueprint.events.find? event = some program ∧
        (FailsFirst w.registry program entry.object error →
          ∃ visits index store, AbortsAt w.registry w.config program w.config.stepBudget
            program.entry?
            ⟨entry.askedUpTo event args (w.classes.chain entry.object.className) className,
              graph.vars⟩
            (.forEvent event args) visits index store report.trace error ∧
            (w.dispatch id declared event args).1 = w.setEntry id (entry.after graph store))) ∧
    ∀ p r error, (w.resumeParked p).2 = .resumed r → r.status = .aborted error →
      let c := p.continuation
      (w.resumeParked p).1.scheduler = w.scheduler ∧
      ∃ entry graph program, w.entry? p.owner = some entry ∧
        entry.graphs.find? c.className = some graph ∧
        graph.blueprint.events.find? c.frame.event = some program ∧
        (FailsFirst w.registry program entry.object error →
          ∃ visits index store trace, AbortsAt w.registry w.config program
            (w.config.stepBudget - c.frame.steps) (c.slot.bind (program.successor? c.node))
            ⟨entry.object, graph.vars⟩ c.frame.scope visits index store trace error ∧
            r.trace = .resumed c.frame.event c.node :: trace ∧
            (w.resumeParked p).1 = w.setEntry p.owner (entry.after graph store)) := by
  constructor
  · intro id declared event args report error hdispatch haborted
    obtain ⟨className, hhandler⟩ := dispatch_aborted hdispatch haborted
    obtain ⟨entry, found, graph, outcome, hentry, htakes, hreport, hafter⟩ :=
      dispatch_takes hdispatch hhandler
    obtain ⟨hstatus, hshown⟩ := htakes.report hreport
    have hending : outcome.ending = .aborted error :=
      Ending.status?_eq_aborted_iff.1 (haborted ▸ hstatus)
    rw [park_aborted _ id (htakes.ends.trans hending), htakes.leaves] at hafter
    rw [htakes.ran] at hending
    obtain ⟨program, hprogram, haborts⟩ := runEvent_aborted hending
    refine ⟨by rw [hafter]; rfl, className, entry, graph, program, hhandler, hentry, htakes.held,
      hprogram, fun hfirst => ?_⟩
    obtain ⟨visits, index, haborts⟩ :=
      haborts (hfirst.imp_right fun h => ⟨h.1, h.2.asked event args _⟩)
    rw [← htakes.ran] at haborts
    exact ⟨visits, index, outcome.store, by rw [hshown]; exact haborts, hafter⟩
  · intro p r error hresumed haborted c
    obtain ⟨entry, graph, outcome, status, hentry, hgraph, hran, hstatus, rfl, hafter⟩ :=
      resumeParked_eq_resumed hresumed
    obtain rfl : status = .aborted error := haborted
    have hending := Ending.status?_eq_aborted_iff.1 hstatus
    rw [park_aborted _ p.owner hending] at hafter
    rw [hran] at hending
    obtain ⟨program, hprogram, haborts⟩ := resume_aborted hending
    refine ⟨by rw [hafter]; rfl, entry, graph, program, hentry, hgraph, hprogram,
      fun hfirst => ?_⟩
    obtain ⟨visits, index, trace, haborts, htrace⟩ := haborts hfirst
    rw [← hran] at haborts htrace
    exact ⟨visits, index, outcome.store, trace, haborts, htrace, hafter⟩

def hurtUnhurtable : GraphDefinition :=
  ⟨.ofList [("Hit",
      ⟨[⟨"SetVariable", [.literal (.text "hits"), .literal (.int 1)], .origin⟩,
        ⟨"ApplyDamage", [.literal (.int 3)], .origin⟩], [⟨0, 1, 0⟩]⟩)],
    .ofList [("Hit", some 0)], ∅⟩

def hurtWorld : World :=
  (empty .default
      (Registry.empty.registerAll [Builtin.setVariable, Gameplay.applyDamage]).1).performAll
    [.registerGenerated "Enemy" none hurtUnhurtable, .spawn (.actor "Enemy")]

theorem aborts_between_nodes_hurt :
    let hit := hurtWorld.dispatch ⟨0, 0⟩ "Enemy" "Hit" ∅
    let error := ExecError.capability 1 "ApplyDamage" (.unknownField "hp")
    hit.2 = .ok ⟨.graph "Enemy", .aborted error, [.entered 0, .entered 1], []⟩ ∧
      hit.1.scheduler = hurtWorld.scheduler ∧
      (hit.1.graph? ⟨0, 0⟩ "Enemy").bind (·.vars.find? "hits") = some (.int 1) ∧
      ∃ (entry : Entry) (graph : BoundGraph) (program : Program) (visits : List Visit)
        (store : Store), FailsFirst hurtWorld.registry program entry.object error ∧
        AbortsAt hurtWorld.registry hurtWorld.config program hurtWorld.config.stepBudget
          program.entry?
          ⟨entry.askedUpTo "Hit" ∅ (hurtWorld.classes.chain entry.object.className) "Enemy",
            graph.vars⟩ (.forEvent "Hit" ∅) visits 1 store [.entered 0, .entered 1] error ∧
        hit.1 = hurtWorld.setEntry ⟨0, 0⟩ (entry.after graph store) := by
  have hhit : (hurtWorld.dispatch ⟨0, 0⟩ "Enemy" "Hit" ∅).2 = .ok ⟨.graph "Enemy",
      .aborted (.capability 1 "ApplyDamage" (.unknownField "hp")), [.entered 0, .entered 1],
      []⟩ := by cbv
  have hvariable : ((hurtWorld.dispatch ⟨0, 0⟩ "Enemy" "Hit" ∅).1.graph? ⟨0, 0⟩ "Enemy").bind
      (·.vars.find? "hits") = some (.int 1) := by cbv
  intro hit error
  obtain ⟨hscheduler, className, entry, graph, program, hhandler, hentry, -, -, haborts⟩ :=
    (aborts_between_nodes hurtWorld).1 _ _ _ _ _ _ hhit rfl
  cases hhandler
  have hfirst : FailsFirst hurtWorld.registry program entry.object error := by
    refine .inr ⟨fun index node c _ hc => ?_, ?_⟩
    · have hentries : hurtWorld.registry.entries = [Builtin.setVariable, Gameplay.applyDamage] := by
        cbv
      have hmem := hentries ▸ List.mem_of_getElem? hc
      simp only [List.mem_cons, List.not_mem_nil, or_false] at hmem
      rcases hmem with rfl | rfl <;> simp [Builtin.all, Gameplay.all]
    · have hactor : (hurtWorld.entry? ⟨0, 0⟩).map (·.object.isActor) = some true := by cbv
      rw [hentry, Option.map_some, Option.some.injEq] at hactor
      unfold Object.isActor at hactor
      split at hactor
      · rename_i hnature
        exact .of_actor hnature
      · contradiction
  obtain ⟨visits, index, store, hat, hafter⟩ := haborts hfirst
  obtain rfl : 1 = index := hat.names 1 rfl
  exact ⟨hhit, hscheduler, hvariable, entry, graph, program, visits, store, hfirst, hat, hafter⟩

end World

end Nodeflow
