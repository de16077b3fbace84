import Mathlib
import Nodeflow.Capability.Builtin
import Nodeflow.Proofs.Latent.Queue
import Nodeflow.Proofs.Run.Execution
import Nodeflow.Proofs.World.Binding
import Nodeflow.Proofs.World.Isolation
import Nodeflow.Proofs.World.Vacancy

/-!
# Nothing parked is orphaned

Everything parked belongs to a live object that has the graph it came from, so a tick
resumes whatever is ready.  Taking an object out takes out what it has parked, for good.
-/

namespace Nodeflow

section Segment

variable {registry : Registry} {config : RuntimeConfig} {graph : BoundGraph} {object : Object}
  {outcome : Outcome} {c : Continuation}

theorem BoundGraph.Segment.exists_frame (h : graph.Segment registry config object outcome)
    (hparked : outcome.ending = .parked c) : ∃ frame current,
      (continueFrame registry config graph object frame current).ending = .parked c := by
  cases h with
  | begun event args =>
      unfold runEvent at hparked
      split at hparked
      · contradiction
      · exact ⟨_, _, hparked⟩
  | resumed c => exact ⟨_, _, hparked⟩

theorem BoundGraph.Segment.parked (h : graph.Segment registry config object outcome)
    (hparked : outcome.ending = .parked c) :
    c.className = graph.className ∧
      ∃ program, graph.blueprint.events.find? c.frame.event = some program ∧
        c.Within registry program := by
  obtain ⟨frame, current, hending⟩ := h.exists_frame hparked
  unfold continueFrame at hending
  split at hending
  · contradiction
  · rename_i program hprogram
    obtain ⟨hclass, hevent, hwithin⟩ := execute_parked hending
    exact ⟨hclass, program, hevent ▸ hprogram, hwithin⟩

end Segment

namespace World

variable {w w' : World} {id : ObjectId} {entry : Entry} {p : Parked}

/--
A parked continuation that can be resumed: its owner is live and has a graph of its class,
and the graph's program has a latent node where it was cut, with the output it leaves by.
-/
def Anchored (w : World) (p : Parked) : Prop :=
  ∃ entry graph program,
    w.entry? p.owner = some entry ∧
      entry.graphs.find? p.continuation.className = some graph ∧
      graph.blueprint.events.find? p.continuation.frame.event = some program ∧
      p.continuation.Within w.registry program

namespace Anchored

theorem poll (h : w.Anchored p) (dt : Float32) : w.Anchored (p.poll dt).1 :=
  h

theorem of_entry?_eq (h : w.Anchored p) (hentry : w'.entry? p.owner = w.entry? p.owner)
    (hregistry : w'.registry = w.registry) : w'.Anchored p := by
  obtain ⟨entry, graph, program, hlive, hgraph, hprogram, hwithin⟩ := h
  exact ⟨entry, graph, program, hentry.trans hlive, hgraph, hprogram, hregistry ▸ hwithin⟩

theorem setEntry (h : w.Anchored p) (hentry : w.entry? id = some entry) {entry' : Entry}
    (hgraphs : ∀ name graph, entry.graphs.find? name = some graph →
      ∃ graph', entry'.graphs.find? name = some graph' ∧ graph'.blueprint = graph.blueprint) :
    (w.setEntry id entry').Anchored p := by
  by_cases howner : p.owner = id
  · obtain ⟨entry₀, graph, program, hlive, hgraph, hprogram, hwithin⟩ := h
    obtain rfl : entry = entry₀ := by
      rw [howner, hentry] at hlive
      exact Option.some.inj hlive
    obtain ⟨graph', hgraph', hblueprint⟩ := hgraphs _ _ hgraph
    refine ⟨entry', graph', program, ?_, hgraph', hblueprint ▸ hprogram, hwithin⟩
    rw [howner]
    exact entry?_setEntry_self hentry entry'
  · exact h.of_entry?_eq (entry?_setEntry_ne hentry _ howner) rfl

theorem park (h : w.Anchored p) (owner : ObjectId) (ending : Ending) :
    (w.park owner ending).Anchored p :=
  h.of_entry?_eq (entry?_park ..) (park_registry ..)

theorem segment (hw : Reached w) (h : w.Anchored p) (hentry : w.entry? id = some entry)
    {name : String} {graph : BoundGraph} (hgraph : entry.graphs.find? name = some graph)
    (store : Store) (ending : Ending) :
    ((w.setEntry id (entry.after graph store)).park id ending).Anchored p := by
  refine Anchored.park (h.setEntry hentry fun other graph' hgraph' => ?_) id ending
  obtain ⟨className, hbound⟩ := hw.bound hentry
  rw [hbound.find?_after hgraph]
  split
  · rename_i hsame
    obtain rfl : graph = graph' := by
      rw [hsame, hgraph] at hgraph'
      exact Option.some.inj hgraph'
    exact ⟨_, rfl, rfl⟩
  · exact ⟨graph', hgraph', rfl⟩

end Anchored

theorem mem_park {owner : ObjectId} {ending : Ending}
    (hp : p ∈ (w.park owner ending).scheduler.parked) :
    p ∈ w.scheduler.parked ∨
      ∃ c, ending = .parked c ∧ p = ⟨w.scheduler.nextId, owner, c⟩ := by
  cases ending with
  | parked c =>
      rcases List.mem_append.1 hp with hold | hnew
      · exact .inl hold
      · exact .inr ⟨c, rfl, List.mem_singleton.1 hnew⟩
  | _ => exact .inl hp

theorem anchored_of_segment (hw : Reached w) (hentry : w.entry? id = some entry)
    {name : String} {graph : BoundGraph} (hgraph : entry.graphs.find? name = some graph)
    {outcome : Outcome} (hsegment : graph.Segment w.registry w.config entry.object outcome)
    {c : Continuation} (hparked : outcome.ending = .parked c) (n : Nat) :
    ((w.setEntry id (entry.after graph outcome.store)).park id outcome.ending).Anchored
      ⟨n, id, c⟩ := by
  obtain ⟨hclass, program, hprogram, hwithin⟩ := hsegment.parked hparked
  obtain ⟨className, hbound⟩ := hw.bound hentry
  obtain ⟨hname, -⟩ := hbound.sound name graph hgraph
  refine Anchored.park ⟨entry.after graph outcome.store,
    { graph with vars := outcome.store.vars }, program, entry?_setEntry_self hentry _, ?_,
    hprogram, hwithin⟩ id outcome.ending
  rw [hbound.find?_after hgraph, hclass, hname, if_pos rfl]

theorem Reached.anchored_of_work (hw : Reached w) (hwork : Work w w')
    (hbefore : ∀ p ∈ w.scheduler.parked, w.Anchored p) :
    ∀ p ∈ w'.scheduler.parked, w'.Anchored p := by
  intro p hp
  cases hwork with
  | object object hentry =>
      refine (hbefore p hp).setEntry hentry fun name graph hgraph => ?_
      exact ⟨graph, hgraph, rfl⟩
  | segment hentry hgraph hsegment =>
      rcases mem_park hp with hold | ⟨c, hending, rfl⟩
      · exact .segment hw (hbefore p hold) hentry hgraph _ _
      · exact anchored_of_segment hw hentry hgraph hsegment hending _

theorem Reached.anchored (hw : Reached w) (hslots : w.slots.length ≤ UInt32.size) :
    ∀ p ∈ w.scheduler.parked, w.Anchored p := by
  revert hslots
  refine hw.preserve (motive := fun w => w.slots.length ≤ UInt32.size →
    ∀ p ∈ w.scheduler.parked, w.Anchored p) ?empty ?change
  case empty =>
    intro config registry _ p hp
    contradiction
  case change =>
    intro w w' hw ih hchange hslots p hp
    have hbefore := ih (Nat.le_trans hchange.length_slots_le hslots)
    cases hchange with
    | register hinsert hbuilt => exact hbefore p hp
    | @spawn _ object id hspawn =>
        have hfresh := hw.tidy.entry?_of_spawn hspawn hslots
        obtain ⟨-, -, hworld⟩ := spawn_eq_ok.1 hspawn
        have hold : p ∈ w.scheduler.parked := by
          rw [hworld] at hp
          exact hp
        have hne : p.owner ≠ id := by
          intro howner
          obtain ⟨entry, graph, program, hlive, -⟩ := hbefore p hold
          rw [howner, hfresh] at hlive
          contradiction
        refine (hbefore p hold).of_entry?_eq (entry?_spawn_ne hspawn hne) ?_
        rw [hworld]
        rfl
    | @destroy _ object id hdestroy =>
        have hentry : w'.entry? p.owner = if p.owner = id then none else w.entry? p.owner :=
          entry?_destroy hdestroy
        obtain ⟨-, -, -, rfl⟩ := destroy_eq_some.1 hdestroy
        obtain ⟨hold, hne⟩ := List.mem_filter.1 hp
        have hne : p.owner ≠ id := by simpa using hne
        rw [if_neg hne] at hentry
        exact (hbefore p hold).of_entry?_eq hentry rfl
    | work hwork => exact hw.anchored_of_work hwork hbefore p hp
    | poll dt =>
        obtain ⟨q, hq, rfl⟩ := Scheduler.mem_poll (.inl hp)
        exact (hbefore q hq).poll dt

/-! ## Ticks drop nothing -/

theorem Anchored.resumeParked (hw : Reached w) {q : Parked} (h : w.Anchored q) (p : Parked) :
    (w.resumeParked p).1.Anchored q := by
  rcases w.resumeParked_cases p with hdropped | ⟨entry, graph, hentry, hgraph⟩
  · rw [hdropped]
    exact h
  · rw [resumeParked_of_graph hentry hgraph]
    exact .segment hw h hentry hgraph _ _

theorem Anchored.not_dropped (h : w.Anchored p) : (w.resumeParked p).2 ≠ .dropped := by
  obtain ⟨entry, graph, program, hlive, hgraph, -⟩ := h
  rw [resumeParked_of_graph hlive hgraph]
  dsimp only
  split <;> nofun

theorem Reached.dropped_eq_zero (hw : Reached w) {ready : List Parked}
    (hready : ∀ p ∈ ready, w.Anchored p) : (w.resumeAll ready).2.dropped = 0 := by
  induction ready generalizing w with
  | nil => rfl
  | cons p rest ih =>
      have hthis : w.Anchored p := hready p (List.mem_cons_self ..)
      have hrest : ∀ q ∈ rest, (w.resumeParked p).1.Anchored q := by
        intro q hq
        exact Anchored.resumeParked hw (hready q (List.mem_cons_of_mem p hq)) p
      have hlater := ih (hw.changes (resumeParked_changes w p)) hrest
      cases hturn : (w.resumeParked p).2 with
      | resumed r =>
          rw [resumeAll_of_resumed rest hturn]
          exact hlater
      | dropped => exact absurd hturn hthis.not_dropped
      | panicked => rw [resumeAll_of_panicked rest hturn]

theorem Reached.tick_dropped (hw : Reached w) (hslots : w.slots.length ≤ UInt32.size)
    (dt : Float32) : (w.tick dt).2.dropped = 0 := by
  refine (hw.changes (.single (.poll dt))).dropped_eq_zero fun q hq => ?_
  obtain ⟨p, hp, rfl⟩ := Scheduler.mem_poll (.inr hq)
  exact (hw.anchored hslots p hp).poll dt

/-! ## What is taken out stays out -/

theorem Change.scheduler (hchange : Change w w') :
    Scheduler.Step w.scheduler w'.scheduler := by
  cases hchange with
  | register _ _ => exact .idle
  | spawn hspawn =>
      obtain ⟨-, -, rfl⟩ := spawn_eq_ok.1 hspawn
      exact .idle
  | @destroy _ object id hdestroy =>
      obtain ⟨-, -, -, rfl⟩ := destroy_eq_some.1 hdestroy
      exact .cancel id
  | work hwork =>
      cases hwork with
      | object _ _ => exact .idle
      | @segment id entry name graph outcome _ _ _ =>
          cases outcome.ending with
          | parked c => exact .suspend id c
          | _ => exact .idle
  | poll dt => exact .poll dt

theorem Reached.numbered (hw : Reached w) : w.scheduler.Numbered := by
  refine hw.preserve (motive := fun w => w.scheduler.Numbered) ?empty ?change
  case empty => exact fun _ _ => Scheduler.Numbered.empty
  case change =>
    intro w w' _ ih hchange
    exact ih.step hchange.scheduler

theorem Changes.retired {n : Nat} (hchanges : Changes w w') (h : w.scheduler.Retired n) :
    w'.scheduler.Retired n := by
  induction hchanges with
  | refl => exact h
  | tail _ hchange ih => exact ih.step hchange.scheduler

def Gone (id : ObjectId) (w : World) : Prop :=
  (w.seenBy id).entry = none ∧ (w.seenBy id).waiting = []

theorem gone_of_destroy {object : Object} (hdestroy : w.destroy id = some (w', object)) :
    Gone id w' := by
  have hentry : w'.entry? id = none := by
    rw [entry?_destroy hdestroy, if_pos rfl]
  obtain ⟨-, -, -, rfl⟩ := destroy_eq_some.1 hdestroy
  refine ⟨hentry, (waitingFor_cancel w.scheduler id).trans ?_⟩
  rw [if_pos rfl]

theorem Gone.tick (h : Gone id w) (dt : Float32) :
    Gone id (w.tick dt).1 ∧ (w.tick dt).2.ofOwner id = [] := by
  obtain ⟨hentry, hwaiting⟩ := h
  obtain ⟨hseen, hresumed, -⟩ := seenBy_tick (a := id) w dt
  have hforeign : ∀ p, p ∈ (w.scheduler.poll dt).1.parked ∨ p ∈ (w.scheduler.poll dt).2 →
      p.owner ≠ id := by
    intro p hp
    obtain ⟨q, hq, rfl⟩ := Scheduler.mem_poll hp
    exact waitingFor_eq_nil.1 hwaiting q hq
  have hready : waitingFor id ((w.tick dt).2.reached (w.scheduler.poll dt).2) = [] :=
    waitingFor_eq_nil.2 fun p hp => hforeign p (.inr (List.mem_of_mem_take hp))
  rw [hready] at hseen hresumed
  refine ⟨?_, hresumed⟩
  rw [Gone, hseen]
  exact ⟨hentry, waitingFor_eq_nil.2 fun p hp => hforeign p (.inl hp)⟩

theorem Gone.perform (h : Gone id w) {operation : Operation}
    (hanswer : (w.perform operation).2 ≠ .spawned (.ok id)) :
    Gone id (w.perform operation).1 := by
  have hdead : w.entry? id = none := h.1
  cases operation with
  | registerNative name parent =>
      simp only [World.perform, registerNative, register]
      cases w.classes.insert (.native name parent) <;> exact h
  | registerGenerated name parent d =>
      simp only [World.perform, registerGenerated, register]
      cases w.classes.insert (.generated name parent (d.build w.registry w.config)) <;> exact h
  | spawn object =>
      simp only [World.perform] at hanswer ⊢
      cases hspawn : w.spawn object with
      | error e => exact h
      | ok result =>
          obtain ⟨w', id'⟩ := result
          have hne : id ≠ id' := by
            rintro rfl
            simp [hspawn] at hanswer
          have hentry := entry?_spawn_ne hspawn hne
          obtain ⟨-, -, rfl⟩ := spawn_eq_ok.1 hspawn
          exact ⟨hentry.trans hdead, h.2⟩
  | destroy id' =>
      simp only [World.perform]
      cases hdestroy : w.destroy id' with
      | none => exact h
      | some result =>
          obtain ⟨w', object⟩ := result
          have hentry : w'.entry? id = none := by
            rw [entry?_destroy hdestroy, hdead, ite_self]
          obtain ⟨-, -, -, rfl⟩ := destroy_eq_some.1 hdestroy
          have hnone : waitingFor id w.scheduler.parked = [] := h.2
          refine ⟨hentry, (waitingFor_cancel w.scheduler id').trans ?_⟩
          rw [hnone, ite_self]
  | setField id' name value =>
      simp only [World.perform, setField]
      cases hentry : w.entry? id' with
      | none => exact h
      | some entry =>
          have hne : id' ≠ id := by
            rintro rfl
            rw [hdead] at hentry
            contradiction
          simpa only [Gone, Option.map_some, seenBy_setEntry_ne hentry _ hne] using h
  | dispatch id' declared event args =>
      by_cases hid : id' = id
      · subst hid
        simpa only [World.perform, dispatch, hdead] using h
      · simpa only [Gone, World.perform, seenBy_dispatch_ne w hid] using h
  | tick dt => exact (h.tick dt).1

theorem Gone.performAll (h : Gone id w) {operations : List Operation}
    (hanswers : Answer.spawned (.ok id) ∉ w.answers operations) :
    Gone id (w.performAll operations) := by
  induction operations generalizing w with
  | nil => exact h
  | cons operation rest ih =>
      simp only [answers, List.mem_cons, not_or] at hanswers
      obtain ⟨hfirst, hrest⟩ := hanswers
      exact ih (h.perform (Ne.symm hfirst)) hrest

/-! ## No orphans -/

/--
While 32-bit indices tell the slots apart, all that is parked can be resumed, and no tick
drops anything.  What an object has parked when it is taken out is never handed out by a
poll again, nor is the object ever resumed, unless a spawn answers its handle anew.
-/
theorem no_orphans (hw : w.Reachable) :
    (w.slots.length ≤ UInt32.size →
      (∀ p ∈ w.scheduler.parked, w.Anchored p) ∧ ∀ dt, (w.tick dt).2.dropped = 0) ∧
      ∀ id w' object, w.destroy id = some (w', object) → ∀ operations dt,
        (∀ p ∈ w.scheduler.parked, p.owner = id →
          ∀ q ∈ ((w'.performAll operations).scheduler.poll dt).2, q.id ≠ p.id) ∧
        (Answer.spawned (.ok id) ∉ w'.answers operations →
          ∀ r ∈ ((w'.performAll operations).tick dt).2.resumed, r.owner ≠ id) := by
  refine ⟨fun hslots => ⟨hw.reached.anchored hslots, hw.reached.tick_dropped hslots⟩, ?_⟩
  intro id w' object hdestroy operations dt
  constructor
  · rintro p hp rfl q hq hid
    have hscheduler : w'.scheduler = w.scheduler.cancel p.owner := by
      obtain ⟨-, -, -, rfl⟩ := destroy_eq_some.1 hdestroy
      rfl
    have hretired : w'.scheduler.Retired p.id := by
      rw [hscheduler]
      exact hw.reached.numbered.retired_cancel hp
    have hlater := (performAll_changes w' operations).retired hretired
    obtain ⟨p', hp', rfl⟩ := Scheduler.mem_poll (.inr hq)
    exact hlater.gone p' hp' hid
  · intro hanswers r hr howner
    obtain ⟨-, hnone⟩ := ((gone_of_destroy hdestroy).performAll hanswers).tick dt
    have hmine : r ∈ ((w'.performAll operations).tick dt).2.ofOwner id :=
      List.mem_filter.2 ⟨hr, by simp [howner]⟩
    rw [hnone] at hmine
    contradiction

def pauseOnHit : GraphDefinition :=
  ⟨.ofList [("Hit", ⟨[⟨"NextTick", [], .origin⟩], []⟩)], .ofList [("Hit", some 0)], ∅⟩

def patient : World :=
  empty .default (Registry.empty.registerAll [Builtin.nextTick]).1

def pausedHistory : List Operation :=
  [.registerGenerated "Enemy" none pauseOnHit, .spawn (.actor "Enemy"),
    .dispatch ⟨0, 0⟩ "Enemy" "Hit" ∅]

def pausedWorld : World :=
  patient.performAll pausedHistory

theorem no_orphans_paused :
    pausedWorld.Reachable ∧ pausedWorld.slots.length ≤ UInt32.size ∧
      pausedWorld.scheduler.parked.map Parked.owner = [⟨0, 0⟩] ∧
      (∀ p ∈ pausedWorld.scheduler.parked, pausedWorld.Anchored p) ∧
      ∀ dt, (pausedWorld.tick dt).2.dropped = 0 := by
  have hreachable : pausedWorld.Reachable := ⟨_, _, _, rfl⟩
  have hlength : pausedWorld.slots.length = 1 := by cbv
  have hslots : pausedWorld.slots.length ≤ UInt32.size := by
    rw [hlength]
    decide
  obtain ⟨hanchored, hdropped⟩ := (no_orphans hreachable).1 hslots
  exact ⟨hreachable, hslots, by cbv, hanchored, hdropped⟩

/-! ### A world that runs out of indices -/

theorem tick_dropping {dt : Float32} (hready : (w.scheduler.poll dt).2 = [p])
    (hentry : w.entry? p.owner = some entry)
    (hnone : entry.graphs.find? p.continuation.className = none) :
    (w.tick dt).2 = ⟨[], 1, []⟩ := by
  have hlive : entry? { w with scheduler := (w.scheduler.poll dt).1 } p.owner = some entry :=
    hentry
  have hturn : (resumeParked { w with scheduler := (w.scheduler.poll dt).1 } p).2 = .dropped := by
    simp only [resumeParked, hlive, hnone]
  simp only [tick, hready, resumeAll_of_dropped [] hturn, resumeAll]

def besetWorld : World :=
  (pausedWorld.perform (.registerNative "Crowd" none)).1

def overrun : List Operation :=
  crowd UInt32.size (.actor "Crowd")

theorem besetWorld_overrun :
    (besetWorld.performAll overrun).scheduler = pausedWorld.scheduler ∧
      ∃ entry, entry? (besetWorld.performAll overrun) ⟨0, 0⟩ = some entry ∧
        entry.graphs.find? "Enemy" = none := by
  have hfree : besetWorld.free = [] := by cbv
  have hclass : besetWorld.classes.contains (Object.actor "Crowd").className = true := by cbv
  have hlength : besetWorld.slots.length = 1 := by cbv
  have hlive : (besetWorld.entry? ⟨0, 0⟩).isSome = true := by cbv
  have hscheduler : besetWorld.scheduler = pausedWorld.scheduler :=
    perform_scheduler pausedWorld _ rfl
  obtain ⟨entry, hentry⟩ := Option.isSome_iff_exists.1 hlive
  obtain ⟨n, hn⟩ : ∃ n, UInt32.size = n + 1 := ⟨UInt32.size - 1, by decide⟩
  have hroom : besetWorld.slots.length + n = UInt32.size := by
    rw [hlength, hn, Nat.add_comm]
  obtain ⟨hkept, hcrowded⟩ := performAll_crowd_overruns hfree hclass hentry hroom
  rw [overrun, hn]
  refine ⟨hkept.trans hscheduler, _, hcrowded, ?_⟩
  have hnone : (bindGraphs besetWorld.classes "Crowd" ⟨0, 0⟩).find? "Enemy" = none := by cbv
  exact hnone

theorem tick_overrun : (tick (besetWorld.performAll overrun) 1).2 = ⟨[], 1, []⟩ := by
  obtain ⟨hscheduler, entry, hentry, hnone⟩ := besetWorld_overrun
  have hqueue : (pausedWorld.scheduler.poll 1).2.map
      (fun p => (p.owner, p.continuation.className)) = [(⟨0, 0⟩, "Enemy")] := by cbv
  obtain ⟨p, hready, hp⟩ := List.map_eq_singleton_iff.1 hqueue
  obtain ⟨howner, hclass⟩ := Prod.mk.inj hp
  rw [← howner] at hentry
  rw [← hclass] at hnone
  rw [← hscheduler] at hready
  exact tick_dropping hready hentry hnone

/--
The object that has been put in the place of another has nothing to resume what the other has
parked.  And a tick that panics resumes nothing of what it was to resume after that.
-/
theorem orphans_overrun :
    (besetWorld.performAll overrun).Reachable ∧
      (∃ p ∈ (besetWorld.performAll overrun).scheduler.parked,
        ¬(besetWorld.performAll overrun).Anchored p) ∧
      ((besetWorld.performAll overrun).tick 1).2.dropped = 1 ∧
      (unhurt.performAll (hits Int64.minValue)).Reachable ∧
      ((unhurt.performAll (hits Int64.minValue)).tick 1).2.lost.map Parked.owner =
        [⟨0, 0⟩, ⟨1, 0⟩] := by
  have hpaused : pausedWorld.Reachable := ⟨_, _, _, rfl⟩
  have hreachable : (besetWorld.performAll overrun).Reachable :=
    (hpaused.performAll [.registerNative "Crowd" none]).performAll overrun
  refine ⟨hreachable, ?_, by rw [tick_overrun], ⟨_, _, _, rfl⟩, tick_hits.2⟩
  obtain ⟨hscheduler, entry, hentry, hnone⟩ := besetWorld_overrun
  have hqueue : pausedWorld.scheduler.parked.map
      (fun p => (p.owner, p.continuation.className)) = [(⟨0, 0⟩, "Enemy")] := by cbv
  obtain ⟨p, hparked, hp⟩ := List.map_eq_singleton_iff.1 hqueue
  obtain ⟨howner, hclass⟩ := Prod.mk.inj hp
  refine ⟨p, by rw [hscheduler, hparked]; exact List.mem_singleton_self p, ?_⟩
  rintro ⟨entry', graph, program, hlive, hgraph, -⟩
  rw [howner, hentry] at hlive
  cases hlive
  rw [hclass, hnone] at hgraph
  cases hgraph

end World

end Nodeflow
