import Nodeflow.World.Basic

/-!
# Events and ticks

An event goes to the most derived class of the object that can handle it: a generated
class by the program it has for the event, a native class by the object's native
implementation.  A tick polls what is parked and resumes what has become ready.

Code that panics takes everything with it that is waiting for it to come back: the event or
the tick in hand brings no report to its caller, and what the tick had still to resume is
lost.
-/

namespace Nodeflow

inductive Handler where
  | graph (className : String)
  | native (className : String)
  | noOp
  deriving DecidableEq

inductive Status where
  | completed
  | suspended
  | aborted (error : ExecError)
  deriving DecidableEq

def Ending.status? : Ending → Option Status
  | .finished => some .completed
  | .parked _ => some .suspended
  | .aborted e => some (.aborted e)
  | .panicked => none

structure DispatchReport where
  handler : Handler
  status : Status
  trace : List TraceEvent
  notes : List String

inductive DispatchError where
  | unknownObject
  | noImplementation (className event : String)
  | panicked
  deriving DecidableEq

def DispatchError.message : DispatchError → String
  | .unknownObject => "object does not exist or was destroyed"
  | .noImplementation className event =>
    "no implementation found for event `" ++ event ++ "` on class `" ++ className ++ "`"
  | .panicked => "the handler panicked"

structure Resumption where
  owner : ObjectId
  className : String
  event : String
  status : Status
  trace : List TraceEvent

/-- What a tick did, also where it panicked and its caller is told nothing. -/
structure TickReport where
  resumed : List Resumption
  dropped : Nat
  /-- What was ready and not resumed yet when a resumption panicked, with the one that did. -/
  lost : List Parked

def Entry.after (entry : Entry) (graph : BoundGraph) (store : Store) : Entry :=
  { object := store.object
    graphs := entry.graphs.insert graph.className { graph with vars := store.vars } }

/-! ## Finding a handler -/

def Entry.runnable? (entry : Entry) (c : ClassInfo) (blueprint : Blueprint) (event : String) :
    Option BoundGraph :=
  if ((blueprint.events.find? event).bind Program.entry?).isSome then entry.graphs.find? c.name
  else none

structure Found where
  entry : Entry
  handler : Handler
  trace : List TraceEvent
  notes : List String
  ending : Ending

def Found.report (f : Found) : Except DispatchError DispatchReport :=
  match f.ending.status? with
  | some status => .ok ⟨f.handler, status, f.trace, f.notes⟩
  | none => .error .panicked

/-- Offers an event to the classes of a chain, one after the other.  The entry comes back
also where no class takes the event, for asking may have changed the object. -/
def offer (registry : Registry) (config : RuntimeConfig) (event : String) (args : EventArgs) :
    Entry → List ClassInfo → Except Entry Found
  | entry, [] => .error entry
  | entry, c :: rest =>
    match c.blueprint with
    | none =>
      let call := entry.object.callNative c.name event args
      let entry := { entry with object := call.object }
      match call.result with
      | .handled => .ok ⟨entry, .native c.name, [], call.notes, .finished⟩
      | .panicked => .ok ⟨entry, .native c.name, [], [], .panicked⟩
      | .missing => offer registry config event args entry rest
    | some blueprint =>
      match entry.runnable? c blueprint event with
      | none => offer registry config event args entry rest
      | some graph =>
        let outcome := runEvent registry config graph entry.object event args
        .ok ⟨entry.after graph outcome.store, .graph c.name, outcome.trace, [], outcome.ending⟩

namespace World

def park (w : World) (owner : ObjectId) : Ending → World
  | .parked c => { w with scheduler := (w.scheduler.suspend owner c).1 }
  | _ => w

/-- Whether an event, sent to an object as one of a class, is any of its business. -/
def concerns (w : World) (o : Object) (declared event : String) : Bool :=
  w.classes.isA o.className declared &&
    (o.responds event || w.classes.graphDefines o.className event)

def dispatch (w : World) (id : ObjectId) (declared event : String) (args : EventArgs) :
    World × Except DispatchError DispatchReport :=
  match w.entry? id with
  | none => (w, .error .unknownObject)
  | some entry =>
    if w.concerns entry.object declared event then
      let className := entry.object.className
      match offer w.registry w.config event args entry (w.classes.chain className) with
      | .error entry => (w.setEntry id entry, .error (.noImplementation className event))
      | .ok found => ((w.setEntry id found.entry).park id found.ending, found.report)
    else (w, .ok ⟨.noOp, .completed, [], []⟩)

/-! ## Ticks -/

inductive Turn where
  | resumed (resumption : Resumption)
  | dropped
  | panicked

def resumeParked (w : World) (p : Parked) : World × Turn :=
  let c := p.continuation
  match w.entry? p.owner with
  | none => (w, .dropped)
  | some entry =>
    match entry.graphs.find? c.className with
    | none => (w, .dropped)
    | some graph =>
      let outcome := resume w.registry w.config graph entry.object c
      let after := (w.setEntry p.owner (entry.after graph outcome.store)).park p.owner outcome.ending
      match outcome.ending.status? with
      | some status => (after, .resumed ⟨p.owner, c.className, c.frame.event, status, outcome.trace⟩)
      | none => (after, .panicked)

/-- Resumes continuations in order, up to the first that panics. -/
def resumeAll (w : World) : List Parked → World × TickReport
  | [] => (w, ⟨[], 0, []⟩)
  | p :: rest =>
    match w.resumeParked p with
    | (w, .resumed r) =>
      let (w, report) := w.resumeAll rest
      (w, { report with resumed := r :: report.resumed })
    | (w, .dropped) =>
      let (w, report) := w.resumeAll rest
      (w, { report with dropped := report.dropped + 1 })
    | (w, .panicked) => (w, ⟨[], 0, p :: rest⟩)

/-- Polls everything parked after `dt` seconds, and resumes what is ready.  What is
parked by that waits for the next tick. -/
def tick (w : World) (dt : Float32) : World × TickReport :=
  let (scheduler, ready) := w.scheduler.poll dt
  { w with scheduler }.resumeAll ready

end World

end Nodeflow
