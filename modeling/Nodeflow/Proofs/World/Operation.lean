import Mathlib.Logic.Relation
import Nodeflow.Proofs.Latent.Queue
import Nodeflow.Proofs.World.Arena

/-!
# What can be done with a world

A host works on a world by operations, each of which answers something.  Every operation
comes down to a few changes: a new class, an object put in or taken out, what code does to an
object or in a part of a run on one of its graphs, and a poll of the scheduler.  What each
change keeps holds of every world that operations can lead to.
-/

namespace Nodeflow

inductive Operation where
  | registerNative (name : String) (parent : Option String)
  | registerGenerated (name : String) (parent : Option String) (d : GraphDefinition)
  | spawn (object : Object)
  | destroy (id : ObjectId)
  | setField (id : ObjectId) (name : String) (value : Value)
  | dispatch (id : ObjectId) (declared event : String) (args : EventArgs)
  | tick (dt : Float32)

inductive Answer where
  | registered (result : Except ClassError (List Diagnostic))
  | spawned (result : Except ClassError ObjectId)
  | destroyed (object : Option Object)
  | fieldSet (result : Option (Except CapabilityError Unit))
  | dispatched (result : Except DispatchError DispatchReport)
  | ticked (report : TickReport)

def Answer.lost : Answer → List Parked
  | .ticked report => report.lost
  | _ => []

namespace World

/-- Carries out an operation; one that fails leaves the world as it is. -/
def perform (w : World) : Operation → World × Answer
  | .registerNative name parent =>
      match w.registerNative name parent with
      | .ok w' => (w', .registered (.ok []))
      | .error e => (w, .registered (.error e))
  | .registerGenerated name parent d =>
      match w.registerGenerated name parent d with
      | .ok (w', diagnostics) => (w', .registered (.ok diagnostics))
      | .error e => (w, .registered (.error e))
  | .spawn object =>
      match w.spawn object with
      | .ok (w', id) => (w', .spawned (.ok id))
      | .error e => (w, .spawned (.error e))
  | .destroy id =>
      match w.destroy id with
      | some (w', object) => (w', .destroyed (some object))
      | none => (w, .destroyed none)
  | .setField id name value =>
      match w.setField id name value with
      | some (result, w') => (w', .fieldSet (some result))
      | none => (w, .fieldSet none)
  | .dispatch id declared event args =>
      let (w', result) := w.dispatch id declared event args
      (w', .dispatched result)
  | .tick dt =>
      let (w', report) := w.tick dt
      (w', .ticked report)

def performAll (w : World) : List Operation → World
  | [] => w
  | operation :: rest => (w.perform operation).1.performAll rest

def answers (w : World) : List Operation → List Answer
  | [] => []
  | operation :: rest => (w.perform operation).2 :: (w.perform operation).1.answers rest

def Reachable (w : World) : Prop :=
  ∃ config registry operations, w = (empty config registry).performAll operations

end World

/-! ## Changes -/

inductive BoundGraph.Segment (registry : Registry) (config : RuntimeConfig) (graph : BoundGraph)
    (object : Object) : Outcome → Prop
  | begun (event : String) (args : EventArgs) :
      Segment registry config graph object (runEvent registry config graph object event args)
  | resumed (c : Continuation) :
      Segment registry config graph object (resume registry config graph object c)

/-- What running code does to a world: it changes an object, or runs a part on a graph. -/
inductive World.Work : World → World → Prop
  | object {w : World} {id : ObjectId} {entry : Entry} (object : Object)
      (hentry : w.entry? id = some entry) : Work w (w.setEntry id { entry with object })
  | segment {w : World} {id : ObjectId} {entry : Entry} {name : String} {graph : BoundGraph}
      {outcome : Outcome} (hentry : w.entry? id = some entry)
      (hgraph : entry.graphs.find? name = some graph)
      (hsegment : graph.Segment w.registry w.config entry.object outcome) :
      Work w ((w.setEntry id (entry.after graph outcome.store)).park id outcome.ending)

abbrev World.Works : World → World → Prop :=
  Relation.ReflTransGen World.Work

inductive World.Change : World → World → Prop
  | register {w : World} {c : ClassInfo} {classes : ClassTable}
      (hinsert : w.classes.insert c = .ok classes)
      (hbuilt : ∀ b, c.blueprint = some b →
        ∃ d : GraphDefinition, b = (d.build w.registry w.config).blueprint) :
      Change w { w with classes }
  | spawn {w w' : World} {object : Object} {id : ObjectId}
      (hspawn : w.spawn object = .ok (w', id)) : Change w w'
  | destroy {w w' : World} {object : Object} {id : ObjectId}
      (hdestroy : w.destroy id = some (w', object)) : Change w w'
  | work {w w' : World} (hwork : World.Work w w') : Change w w'
  | poll {w : World} (dt : Float32) :
      Change w { w with scheduler := (w.scheduler.poll dt).1 }

abbrev World.Changes : World → World → Prop :=
  Relation.ReflTransGen World.Change

theorem World.Works.changes {w w' : World} (h : World.Works w w') : World.Changes w w' :=
  Relation.ReflTransGen.mono (fun _ _ hwork => Change.work hwork) _ _ h

/-! ## Offering an event along a chain -/

section Offer

variable {registry : Registry} {config : RuntimeConfig} {event : String} {args : EventArgs}
  {chain : List ClassInfo} {entry : Entry}

theorem offer_eq_error {entry' : Entry}
    (h : offer registry config event args entry chain = .error entry') :
    ∃ object : Object, entry' = { entry with object } := by
  induction chain generalizing entry with
  | nil =>
      obtain rfl : entry = entry' := Except.error.inj h
      exact ⟨entry.object, rfl⟩
  | cons c rest ih =>
      unfold offer at h
      split at h
      · simp only at h
        split at h
        · contradiction
        · contradiction
        · obtain ⟨object, rfl⟩ := ih h
          exact ⟨object, rfl⟩
      · split at h
        · exact ih h
        · contradiction

theorem offer_eq_ok {found : Found}
    (h : offer registry config event args entry chain = .ok found) :
    ∃ object : Object,
      (found.entry = { entry with object } ∧ ∀ c, found.ending ≠ .parked c) ∨
        ∃ name graph, entry.graphs.find? name = some graph ∧
          found.entry =
            entry.after graph (runEvent registry config graph object event args).store ∧
          found.ending = (runEvent registry config graph object event args).ending := by
  induction chain generalizing entry with
  | nil => contradiction
  | cons c rest ih =>
      unfold offer at h
      split at h
      · simp only at h
        split at h
        · cases h
          exact ⟨_, .inl ⟨rfl, nofun⟩⟩
        · cases h
          exact ⟨_, .inl ⟨rfl, nofun⟩⟩
        · obtain ⟨object, hfound⟩ := ih h
          exact ⟨object, hfound⟩
      · split at h
        · exact ih h
        · rename_i blueprint _ graph hrunnable
          cases h
          have hgraph : entry.graphs.find? c.name = some graph := by
            unfold Entry.runnable? at hrunnable
            split at hrunnable
            · exact hrunnable
            · contradiction
          exact ⟨_, .inr ⟨c.name, graph, hgraph, rfl, rfl⟩⟩

end Offer

/-! ## Operations are changes -/

namespace World

variable {w w' : World}

theorem register_eq_ok {c : ClassInfo} :
    w.register c = .ok w' ↔
      ∃ classes, w.classes.insert c = .ok classes ∧ w' = { w with classes } := by
  unfold register
  cases w.classes.insert c with
  | error e => simp [bind, Except.bind]
  | ok classes => simp [bind, Except.bind, pure, Except.pure, eq_comm]

theorem registerGenerated_eq_ok {name : String} {parent : Option String} {d : GraphDefinition}
    {diagnostics : List Diagnostic} :
    w.registerGenerated name parent d = .ok (w', diagnostics) ↔
      ∃ classes,
        w.classes.insert (.generated name parent (d.build w.registry w.config)) = .ok classes ∧
        w' = { w with classes } ∧ diagnostics = (d.build w.registry w.config).diagnostics := by
  cases hinsert : w.classes.insert (.generated name parent (d.build w.registry w.config)) with
  | error e => simp [registerGenerated, register, hinsert, bind, Except.bind]
  | ok classes =>
      simp [registerGenerated, register, hinsert, bind, Except.bind, pure, Except.pure, eq_comm]

theorem registerNative_change {name : String} {parent : Option String}
    (h : w.registerNative name parent = .ok w') : Change w w' := by
  obtain ⟨classes, hinsert, rfl⟩ := register_eq_ok.1 h
  exact .register hinsert nofun

theorem registerGenerated_change {name : String} {parent : Option String} {d : GraphDefinition}
    {diagnostics : List Diagnostic}
    (h : w.registerGenerated name parent d = .ok (w', diagnostics)) : Change w w' := by
  obtain ⟨classes, hinsert, rfl, -⟩ := registerGenerated_eq_ok.1 h
  refine .register hinsert fun b hb => ⟨d, ?_⟩
  cases hb
  rfl

theorem park_of_not_parked {ending : Ending} (h : ∀ c, ending ≠ .parked c) (w : World)
    (owner : ObjectId) : w.park owner ending = w := by
  cases ending with
  | parked c => exact absurd rfl (h c)
  | _ => rfl

theorem dispatch_works (w : World) (id : ObjectId) (declared event : String)
    (args : EventArgs) : Works w (w.dispatch id declared event args).1 := by
  unfold dispatch
  split
  · exact .refl
  · rename_i entry hentry
    split
    · simp only
      split
      · rename_i entry' hoffer
        obtain ⟨object, rfl⟩ := offer_eq_error hoffer
        exact .single (.object object hentry)
      · rename_i found hoffer
        obtain ⟨object, ⟨hfound, hending⟩ | ⟨name, graph, hgraph, hfound, hending⟩⟩ :=
          offer_eq_ok hoffer
        · rw [hfound, park_of_not_parked hending]
          exact .single (.object object hentry)
        · rw [hfound, hending, ← setEntry_setEntry w id { entry with object }]
          have hentry' := entry?_setEntry_self hentry { entry with object }
          have hsegment := Work.segment hentry' hgraph (.begun event args)
          exact .tail (.single (.object object hentry)) hsegment
    · exact .refl

theorem dispatch_changes (w : World) (id : ObjectId) (declared event : String)
    (args : EventArgs) : Changes w (w.dispatch id declared event args).1 :=
  (dispatch_works w id declared event args).changes

/-! ### Resumptions -/

theorem resumeParked_of_graph {p : Parked} {entry : Entry} {graph : BoundGraph}
    (hentry : w.entry? p.owner = some entry)
    (hgraph : entry.graphs.find? p.continuation.className = some graph) :
    let outcome := resume w.registry w.config graph entry.object p.continuation
    w.resumeParked p =
      ( (w.setEntry p.owner (entry.after graph outcome.store)).park p.owner outcome.ending
      , match outcome.ending.status? with
        | some status => .resumed ⟨p.owner, p.continuation.className,
            p.continuation.frame.event, status, outcome.trace⟩
        | none => .panicked ) := by
  simp only [resumeParked, hentry, hgraph]
  cases (resume w.registry w.config graph entry.object p.continuation).ending.status? <;> rfl

theorem resumeParked_cases (w : World) (p : Parked) :
    w.resumeParked p = (w, .dropped) ∨
      ∃ entry graph, w.entry? p.owner = some entry ∧
        entry.graphs.find? p.continuation.className = some graph := by
  cases hentry : w.entry? p.owner with
  | none => exact .inl (by simp only [resumeParked, hentry])
  | some entry =>
      cases hgraph : entry.graphs.find? p.continuation.className with
      | none => exact .inl (by simp only [resumeParked, hentry, hgraph])
      | some graph => exact .inr ⟨entry, graph, rfl, hgraph⟩

theorem resumeParked_works (w : World) (p : Parked) : Works w (w.resumeParked p).1 := by
  rcases w.resumeParked_cases p with hdropped | ⟨entry, graph, hentry, hgraph⟩
  · rw [hdropped]
  · rw [resumeParked_of_graph hentry hgraph]
    exact .single (.segment hentry hgraph (.resumed p.continuation))

theorem resumeParked_eq_resumed {p : Parked} {r : Resumption}
    (h : (w.resumeParked p).2 = .resumed r) :
    ∃ entry graph outcome status, w.entry? p.owner = some entry ∧
      entry.graphs.find? p.continuation.className = some graph ∧
      outcome = resume w.registry w.config graph entry.object p.continuation ∧
      outcome.ending.status? = some status ∧
      r = ⟨p.owner, p.continuation.className, p.continuation.frame.event, status,
        outcome.trace⟩ ∧
      (w.resumeParked p).1 =
        (w.setEntry p.owner (entry.after graph outcome.store)).park p.owner outcome.ending := by
  rcases w.resumeParked_cases p with hdropped | ⟨entry, graph, hentry, hgraph⟩
  · rw [hdropped] at h
    contradiction
  · rw [resumeParked_of_graph hentry hgraph] at h ⊢
    simp only at h
    split at h
    · rename_i status hstatus
      exact ⟨entry, graph, _, status, hentry, hgraph, rfl, hstatus, (Turn.resumed.inj h).symm,
        rfl⟩
    · contradiction

def Turn.resumption? : Turn → Option Resumption
  | .resumed r => some r
  | _ => none

section ResumeAll

variable {p : Parked} (rest : List Parked)

theorem resumeAll_of_resumed {r : Resumption} (h : (w.resumeParked p).2 = .resumed r) :
    w.resumeAll (p :: rest) =
      let later := (w.resumeParked p).1.resumeAll rest
      (later.1, { later.2 with resumed := r :: later.2.resumed }) := by
  rw [resumeAll]
  split <;> simp_all

theorem resumeAll_of_dropped (h : (w.resumeParked p).2 = .dropped) :
    w.resumeAll (p :: rest) =
      let later := (w.resumeParked p).1.resumeAll rest
      (later.1, { later.2 with dropped := later.2.dropped + 1 }) := by
  rw [resumeAll]
  split <;> simp_all

theorem resumeAll_of_panicked (h : (w.resumeParked p).2 = .panicked) :
    w.resumeAll (p :: rest) = ((w.resumeParked p).1, ⟨[], 0, p :: rest⟩) := by
  rw [resumeAll]
  split <;> simp_all

theorem resumeAll_of_not_panicked (h : (w.resumeParked p).2 ≠ .panicked) :
    (w.resumeAll (p :: rest)).1 = ((w.resumeParked p).1.resumeAll rest).1 ∧
      (w.resumeAll (p :: rest)).2.resumed = (w.resumeParked p).2.resumption?.toList ++
        ((w.resumeParked p).1.resumeAll rest).2.resumed := by
  cases hturn : (w.resumeParked p).2 with
  | resumed r =>
      rw [resumeAll_of_resumed rest hturn]
      exact ⟨rfl, rfl⟩
  | dropped =>
      rw [resumeAll_of_dropped rest hturn]
      exact ⟨rfl, rfl⟩
  | panicked => contradiction

theorem resumeAll_cons (w : World) (p : Parked) (rest : List Parked) :
    ((w.resumeAll (p :: rest)).1 = ((w.resumeParked p).1.resumeAll rest).1 ∧
      (w.resumeAll (p :: rest)).2.resumed = (w.resumeParked p).2.resumption?.toList ++
        ((w.resumeParked p).1.resumeAll rest).2.resumed) ∨
    w.resumeAll (p :: rest) = ((w.resumeParked p).1, ⟨[], 0, p :: rest⟩) := by
  by_cases hturn : (w.resumeParked p).2 = .panicked
  · exact .inr (resumeAll_of_panicked rest hturn)
  · exact .inl (resumeAll_of_not_panicked rest hturn)

theorem mem_resumed_cons {rest : List Parked} {r : Resumption}
    (hr : r ∈ (w.resumeAll (p :: rest)).2.resumed) :
    (w.resumeParked p).2 = .resumed r ∨ r ∈ ((w.resumeParked p).1.resumeAll rest).2.resumed := by
  cases hturn : (w.resumeParked p).2 with
  | resumed r' =>
      rw [resumeAll_of_resumed rest hturn] at hr
      rcases List.mem_cons.1 hr with rfl | hr
      · exact .inl rfl
      · exact .inr hr
  | dropped =>
      rw [resumeAll_of_dropped rest hturn] at hr
      exact .inr hr
  | panicked =>
      rw [resumeAll_of_panicked rest hturn] at hr
      contradiction

end ResumeAll

theorem resumeAll_induction {motive : World → World → Prop} (refl : ∀ w, motive w w)
    (step : ∀ {w p w'}, motive (resumeParked w p).1 w' → motive w w') (w : World)
    (ready : List Parked) : motive w (w.resumeAll ready).1 := by
  induction ready generalizing w with
  | nil => exact refl w
  | cons p rest ih =>
      cases hturn : (w.resumeParked p).2 with
      | resumed r =>
          rw [resumeAll_of_resumed rest hturn]
          exact step (ih _)
      | dropped =>
          rw [resumeAll_of_dropped rest hturn]
          exact step (ih _)
      | panicked =>
          rw [resumeAll_of_panicked rest hturn]
          exact step (refl _)

theorem resumeParked_changes (w : World) (p : Parked) : Changes w (w.resumeParked p).1 :=
  (resumeParked_works w p).changes

theorem resumeAll_works (w : World) (ready : List Parked) : Works w (w.resumeAll ready).1 :=
  resumeAll_induction (fun _ => .refl) (resumeParked_works _ _).trans w ready

theorem setField_works {id : ObjectId} {name : String} {value : Value}
    {result : Except CapabilityError Unit} (h : w.setField id name value = some (result, w')) :
    Works w w' := by
  obtain ⟨entry, hentry, hset⟩ := Option.map_eq_some_iff.1 h
  cases hset
  exact .single (.object _ hentry)

theorem perform_changes (w : World) (operation : Operation) :
    Changes w (w.perform operation).1 := by
  cases operation with
  | registerNative name parent =>
      simp only [perform]
      split
      · rename_i h
        exact .single (registerNative_change h)
      · exact .refl
  | registerGenerated name parent d =>
      simp only [perform]
      split
      · rename_i h
        exact .single (registerGenerated_change h)
      · exact .refl
  | spawn object =>
      simp only [perform]
      split
      · rename_i h
        exact .single (.spawn h)
      · exact .refl
  | destroy id =>
      simp only [perform]
      split
      · rename_i h
        exact .single (.destroy h)
      · exact .refl
  | setField id name value =>
      simp only [perform]
      split
      · rename_i hset
        exact (setField_works hset).changes
      · exact .refl
  | dispatch id declared event args => exact dispatch_changes w id declared event args
  | tick dt => exact .head (.poll dt) (resumeAll_works _ _).changes

theorem performAll_append (w : World) (first second : List Operation) :
    w.performAll (first ++ second) = (w.performAll first).performAll second := by
  induction first generalizing w with
  | nil => rfl
  | cons operation rest ih => exact ih _

theorem answers_append (w : World) (first second : List Operation) :
    w.answers (first ++ second) = w.answers first ++ (w.performAll first).answers second := by
  induction first generalizing w with
  | nil => rfl
  | cons operation rest ih => exact congrArg _ (ih _)

theorem performAll_changes (w : World) (operations : List Operation) :
    Changes w (w.performAll operations) := by
  induction operations generalizing w with
  | nil => exact .refl
  | cons operation rest ih => exact (perform_changes w operation).trans (ih _)

/--
A world at any moment of its history, also in the midst of an operation, such as between
two resumptions of one tick.
-/
def Reached (w : World) : Prop :=
  ∃ config registry, Changes (empty config registry) w

theorem Reached.changes (h : Reached w) (hchanges : Changes w w') : Reached w' := by
  obtain ⟨config, registry, hbefore⟩ := h
  exact ⟨config, registry, hbefore.trans hchanges⟩

theorem Reachable.reached (h : Reachable w) : Reached w := by
  obtain ⟨config, registry, operations, rfl⟩ := h
  exact ⟨config, registry, performAll_changes _ operations⟩

theorem Reachable.performAll (h : Reachable w) (operations : List Operation) :
    Reachable (w.performAll operations) := by
  obtain ⟨config, registry, before, rfl⟩ := h
  exact ⟨config, registry, before ++ operations, (performAll_append ..).symm⟩

theorem Reached.preserve {motive : World → Prop}
    (empty : ∀ config registry, motive (empty config registry))
    (change : ∀ w w', Reached w → motive w → Change w w' → motive w') (h : Reached w) :
    motive w := by
  obtain ⟨config, registry, hchanges⟩ := h
  induction hchanges with
  | refl => exact empty config registry
  | tail hbefore hchange ih => exact change _ _ ⟨config, registry, hbefore⟩ ih hchange

/-! ## Parking -/

theorem park_gains (w : World) (owner : ObjectId) (ending : Ending) :
    w.scheduler.Gains (w.park owner ending).scheduler := by
  cases ending with
  | parked c => exact .suspend ..
  | _ => exact .refl _

theorem dispatch_gains (w : World) (id : ObjectId) (declared event : String) (args : EventArgs) :
    w.scheduler.Gains (w.dispatch id declared event args).1.scheduler := by
  unfold dispatch
  split
  · exact .refl _
  · rename_i entry _
    split
    · simp only
      split
      · exact .refl _
      · rename_i found _
        exact park_gains (w.setEntry id found.entry) id found.ending
    · exact .refl _

theorem resumeParked_gains (w : World) (p : Parked) :
    w.scheduler.Gains (w.resumeParked p).1.scheduler := by
  rcases w.resumeParked_cases p with hdropped | ⟨entry, graph, hentry, hgraph⟩
  · rw [hdropped]
    exact .refl _
  · rw [resumeParked_of_graph hentry hgraph]
    exact park_gains (w.setEntry ..) ..

theorem resumeAll_gains (w : World) (ready : List Parked) :
    w.scheduler.Gains (w.resumeAll ready).1.scheduler :=
  resumeAll_induction (motive := fun w w' => w.scheduler.Gains w'.scheduler)
    (fun _ => .refl _) (resumeParked_gains _ _).trans w ready

theorem tick_queue (w : World) (dt : Float32) :
    ∃ resumed : List Parked,
      (w.tick dt).1.scheduler.parked = (w.scheduler.poll dt).1.parked ++ resumed ∧
      ∀ p ∈ resumed, w.scheduler.nextId ≤ p.id :=
  (resumeAll_gains { w with scheduler := (w.scheduler.poll dt).1 } (w.scheduler.poll dt).2).parked

/-! ## What operations and changes leave alone -/

def leavesQueue : Operation → Bool
  | .registerNative _ _ => true
  | .registerGenerated _ _ _ => true
  | .spawn _ => true
  | .destroy _ => false
  | .setField _ _ _ => true
  | .dispatch _ _ _ _ => false
  | .tick _ => false

theorem perform_scheduler (w : World) (operation : Operation)
    (h : leavesQueue operation = true) :
    (w.perform operation).1.scheduler = w.scheduler := by
  cases operation with
  | registerNative name parent =>
      simp only [perform]
      split
      · rename_i hregister
        obtain ⟨classes, -, rfl⟩ := register_eq_ok.1 hregister
        rfl
      · rfl
  | registerGenerated name parent d =>
      simp only [perform]
      split
      · rename_i hregister
        obtain ⟨classes, -, rfl, -⟩ := registerGenerated_eq_ok.1 hregister
        rfl
      · rfl
  | spawn object =>
      simp only [perform]
      split
      · rename_i hspawn
        obtain ⟨-, -, rfl⟩ := spawn_eq_ok.1 hspawn
        rfl
      · rfl
  | setField id name value =>
      simp only [perform, setField]
      cases w.entry? id <;> rfl
  | destroy id => contradiction
  | dispatch id declared event args => contradiction
  | tick dt => contradiction

theorem mem_parked_destroy {id : ObjectId} {p : Parked}
    (hp : p ∈ (w.perform (.destroy id)).1.scheduler.parked) : p ∈ w.scheduler.parked := by
  simp only [perform] at hp
  split at hp
  · rename_i hdestroy
    obtain ⟨-, -, -, rfl⟩ := destroy_eq_some.1 hdestroy
    exact (List.mem_filter.1 hp).1
  · exact hp

theorem Work.config (hwork : Work w w') : w'.config = w.config := by
  cases hwork with
  | object => rfl
  | segment => exact park_config ..

theorem Work.registry (hwork : Work w w') : w'.registry = w.registry := by
  cases hwork with
  | object => rfl
  | segment => exact park_registry ..

theorem Work.classes (hwork : Work w w') : w'.classes = w.classes := by
  cases hwork with
  | object => rfl
  | segment => exact park_classes ..

theorem Change.config (hchange : Change w w') : w'.config = w.config := by
  cases hchange with
  | spawn hspawn =>
      obtain ⟨-, -, rfl⟩ := spawn_eq_ok.1 hspawn
      rfl
  | destroy hdestroy =>
      obtain ⟨-, -, -, rfl⟩ := destroy_eq_some.1 hdestroy
      rfl
  | work hwork => exact hwork.config
  | _ => rfl

theorem Changes.config (hchanges : Changes w w') : w'.config = w.config := by
  induction hchanges with
  | refl => rfl
  | tail _ hchange ih => exact hchange.config.trans ih

theorem Change.registry (hchange : Change w w') : w'.registry = w.registry := by
  cases hchange with
  | spawn hspawn =>
      obtain ⟨-, -, rfl⟩ := spawn_eq_ok.1 hspawn
      rfl
  | destroy hdestroy =>
      obtain ⟨-, -, -, rfl⟩ := destroy_eq_some.1 hdestroy
      rfl
  | work hwork => exact hwork.registry
  | _ => rfl

theorem Change.classes (hchange : Change w w') :
    w'.classes = w.classes ∨ ∃ c, w.classes.insert c = .ok w'.classes ∧
      ∀ b, c.blueprint = some b →
        ∃ d : GraphDefinition, b = (d.build w.registry w.config).blueprint := by
  cases hchange with
  | register hinsert hbuilt => exact .inr ⟨_, hinsert, hbuilt⟩
  | spawn hspawn =>
      obtain ⟨-, -, rfl⟩ := spawn_eq_ok.1 hspawn
      exact .inl rfl
  | destroy hdestroy =>
      obtain ⟨-, -, -, rfl⟩ := destroy_eq_some.1 hdestroy
      exact .inl rfl
  | work hwork => exact .inl hwork.classes
  | _ => exact .inl rfl

end World

end Nodeflow
