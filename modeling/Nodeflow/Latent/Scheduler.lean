import Nodeflow.Object
import Nodeflow.Run.Continuation

/-!
# The scheduler

Parked continuations in the order in which they were suspended.  A poll moves every
condition on once and hands out the continuations whose condition is met.
-/

namespace Nodeflow

structure Parked where
  id : Nat
  owner : ObjectId
  continuation : Continuation

structure Scheduler where
  nextId : Nat
  parked : List Parked

def Parked.poll (p : Parked) (dt : Float32) : Parked × Bool :=
  let (condition, done) := p.continuation.condition.poll dt
  ({ p with continuation := { p.continuation with condition } }, done)

namespace Scheduler

def empty : Scheduler := ⟨0, []⟩

instance : Inhabited Scheduler := ⟨empty⟩

def suspend (s : Scheduler) (owner : ObjectId) (continuation : Continuation) : Scheduler × Nat :=
  (⟨s.nextId + 1, s.parked ++ [⟨s.nextId, owner, continuation⟩]⟩, s.nextId)

/-- Moves every condition on by `dt`.  The second part is what is no longer parked. -/
def poll (s : Scheduler) (dt : Float32) : Scheduler × List Parked :=
  let polled := s.parked.map (·.poll dt)
  ( { s with parked := (polled.filter fun p => !p.2).map Prod.fst }
  , (polled.filter fun p => p.2).map Prod.fst )

def cancel (s : Scheduler) (owner : ObjectId) : Scheduler :=
  { s with parked := s.parked.filter fun p => p.owner != owner }

def pendingFor (s : Scheduler) (owner : ObjectId) : Nat :=
  s.parked.countP fun p => p.owner == owner

def size (s : Scheduler) : Nat :=
  s.parked.length

end Scheduler

end Nodeflow
