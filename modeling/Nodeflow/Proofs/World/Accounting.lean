import Nodeflow.Proofs.Latent.Lives
import Nodeflow.Proofs.World.Orphans

/-!
# Accounts of what was suspended

Every suspension that a world reports puts one continuation into the queue.  It leaves the
queue when a tick resumes it, drops it or loses it over a panic, or when its object is taken
out.
-/

namespace Nodeflow

/-! ## What answers report -/

namespace Answer

def statuses : Answer → List Status
  | .dispatched (.ok report) => [report.status]
  | .ticked report => report.resumed.map Resumption.status
  | _ => []

def suspensions (answer : Answer) : Nat :=
  answer.statuses.count .suspended

def resumptions : Answer → Nat
  | .ticked report => report.resumed.length
  | _ => 0

def dropped : Answer → Nat
  | .ticked report => report.dropped
  | _ => 0

end Answer

namespace World

def cancelledBy (w : World) : Operation → Nat
  | .destroy id => if w.contains id then w.scheduler.pendingFor id else 0
  | _ => 0

def cancelled (w : World) : List Operation → Nat
  | [] => 0
  | operation :: rest => w.cancelledBy operation + (w.perform operation).1.cancelled rest

end World

/-! ## The queue -/

namespace Scheduler

theorem size_poll (s : Scheduler) (dt : Float32) :
    (s.poll dt).1.size + (s.poll dt).2.length = s.size := by
  have hsplit := List.length_eq_length_filter_add (l := s.parked.map (·.poll dt)) fun p => p.2
  simp only [List.length_map] at hsplit
  simp only [size, poll, List.length_map]
  omega

theorem size_cancel (s : Scheduler) (owner : ObjectId) :
    (s.cancel owner).size + s.pendingFor owner = s.size := by
  have hsplit := List.length_eq_length_filter_add (l := s.parked) fun p => p.owner == owner
  simp only [size, cancel, pendingFor, bne, List.countP_eq_length_filter]
  omega

end Scheduler

theorem Found.suspensions_report (found : Found) :
    (Answer.dispatched found.report).suspensions =
      found.ending.status?.toList.count .suspended := by
  unfold report
  cases found.ending.status? <;> rfl

namespace World

theorem size_park (w : World) (owner : ObjectId) (ending : Ending) :
    (w.park owner ending).scheduler.size =
      w.scheduler.size + ending.status?.toList.count .suspended := by
  cases ending with
  | parked c => simp [park, Scheduler.suspend, Scheduler.size, Ending.status?]
  | _ => rfl

/-! ## Operations balance -/

theorem dispatch_balance (w : World) (id : ObjectId) (declared event : String) (args : EventArgs) :
    (w.dispatch id declared event args).1.scheduler.size = w.scheduler.size +
      (Answer.dispatched (w.dispatch id declared event args).2).suspensions := by
  unfold dispatch
  split
  · rfl
  · rename_i entry _
    split
    · simp only
      split
      · rfl
      · rename_i found hoffer
        simp only [size_park, Found.suspensions_report]
        rfl
    · rfl

theorem resumeParked_balance (w : World) (p : Parked) :
    (w.resumeParked p).1.scheduler.size = w.scheduler.size +
      ((w.resumeParked p).2.resumption?.toList.map Resumption.status).count .suspended := by
  rcases w.resumeParked_cases p with hdropped | ⟨entry, graph, hentry, hgraph⟩
  · rw [hdropped]
    rfl
  · rw [resumeParked_of_graph hentry hgraph]
    simp only [size_park]
    cases (resume w.registry w.config graph entry.object p.continuation).ending.status? <;> rfl

theorem resumeAll_balance (w : World) (ready : List Parked) :
    (w.resumeAll ready).1.scheduler.size = w.scheduler.size +
        ((w.resumeAll ready).2.resumed.map Resumption.status).count .suspended ∧
      (w.resumeAll ready).2.resumed.length + (w.resumeAll ready).2.dropped +
        (w.resumeAll ready).2.lost.length = ready.length := by
  induction ready generalizing w with
  | nil => exact ⟨rfl, rfl⟩
  | cons p rest ih =>
      obtain ⟨hsize, hlength⟩ := ih (w.resumeParked p).1
      have hfirst := resumeParked_balance w p
      cases hturn : (w.resumeParked p).2 with
      | resumed r =>
          rw [resumeAll_of_resumed rest hturn]
          simp only [hturn, Turn.resumption?, Option.toList_some, List.map_cons, List.map_nil] at hfirst
          simp only [List.length_cons, List.map_cons, List.count_cons, List.count_nil] at hfirst ⊢
          omega
      | dropped =>
          rw [resumeAll_of_dropped rest hturn]
          simp only [hturn, Turn.resumption?, Option.toList_none, List.map_nil,
            List.count_nil] at hfirst
          simp only [List.length_cons]
          omega
      | panicked =>
          rw [resumeAll_of_panicked rest hturn]
          simp only [hturn, Turn.resumption?, Option.toList_none, List.map_nil,
            List.count_nil] at hfirst
          simp only [List.length_cons, List.map_nil, List.length_nil, List.count_nil]
          omega

theorem tick_balance (w : World) (dt : Float32) :
    w.scheduler.size + (Answer.ticked (w.tick dt).2).suspensions =
      (w.tick dt).2.resumed.length + (w.tick dt).2.dropped + (w.tick dt).2.lost.length +
        (w.tick dt).1.scheduler.size := by
  obtain ⟨hsize, hlength⟩ :=
    resumeAll_balance { w with scheduler := (w.scheduler.poll dt).1 } (w.scheduler.poll dt).2
  have hpoll := w.scheduler.size_poll dt
  dsimp only at hsize
  simp only [Answer.suspensions, Answer.statuses, tick]
  omega

theorem destroy_balance {w w' : World} {id : ObjectId} {object : Object}
    (h : w.destroy id = some (w', object)) :
    w'.scheduler.size + w.cancelledBy (.destroy id) = w.scheduler.size := by
  obtain ⟨entry, hentry, -, rfl⟩ := destroy_eq_some.1 h
  have hlive : w.contains id = true := by simp [contains, hentry]
  rw [cancelledBy, if_pos hlive]
  exact w.scheduler.size_cancel id

/--
What is parked before an operation, or reported suspended by it, is resumed, dropped, lost or
cancelled by it, or parked after it.
-/
theorem perform_balance (w : World) (operation : Operation) :
    w.scheduler.size + (w.perform operation).2.suspensions =
      (w.perform operation).2.resumptions + (w.perform operation).2.dropped +
        (w.perform operation).2.lost.length + w.cancelledBy operation +
        (w.perform operation).1.scheduler.size := by
  cases operation with
  | registerNative name parent =>
      simp only [perform, registerNative, register]
      cases w.classes.insert (.native name parent) <;> exact Nat.add_comm _ 0
  | registerGenerated name parent d =>
      simp only [perform, registerGenerated, register]
      cases w.classes.insert (.generated name parent (d.build w.registry w.config)) <;>
        exact Nat.add_comm _ 0
  | spawn object =>
      simp only [perform]
      cases hspawn : w.spawn object with
      | error e => exact Nat.add_comm _ 0
      | ok result =>
          obtain ⟨-, -, hworld⟩ := spawn_eq_ok.1 hspawn
          simp only [hworld]
          exact Nat.add_comm _ 0
  | destroy id =>
      simp only [perform]
      cases hdestroy : w.destroy id with
      | none =>
          have hdead : w.contains id = false := by
            simpa [destroy, contains] using hdestroy
          simp only [cancelledBy, hdead, Bool.false_eq_true, if_false]
          exact Nat.add_comm _ 0
      | some result =>
          have hbalance := destroy_balance hdestroy
          simp only [Answer.suspensions, Answer.statuses, Answer.resumptions, Answer.dropped,
            Answer.lost, List.count_nil, List.length_nil]
          omega
  | setField id name value =>
      simp only [perform, setField]
      cases w.entry? id <;> exact Nat.add_comm _ 0
  | dispatch id declared event args =>
      have hbalance := dispatch_balance w id declared event args
      simp only [perform, Answer.resumptions, Answer.dropped, Answer.lost, cancelledBy,
        List.length_nil]
      omega
  | tick dt =>
      have hbalance := tick_balance w dt
      simp only [perform, Answer.resumptions, Answer.dropped, Answer.lost, cancelledBy]
      omega

/-! ## Runs balance -/

theorem performAll_balance (w : World) (operations : List Operation) :
    w.scheduler.size + ((w.answers operations).map Answer.suspensions).sum =
      ((w.answers operations).map Answer.resumptions).sum +
        ((w.answers operations).map Answer.dropped).sum +
        ((w.answers operations).map fun answer => answer.lost.length).sum +
        w.cancelled operations + (w.performAll operations).scheduler.size := by
  induction operations generalizing w with
  | nil => simp [answers, cancelled, performAll]
  | cons operation rest ih =>
      have hfirst := perform_balance w operation
      have hrest := ih (w.perform operation).1
      simp only [answers, cancelled, performAll, List.map_cons, List.sum_cons]
      omega

theorem Reached.perform_dropped {w : World} (hw : Reached w)
    (hslots : w.slots.length ≤ UInt32.size) (operation : Operation) :
    (w.perform operation).2.dropped = 0 := by
  cases operation with
  | tick dt => exact hw.tick_dropped hslots dt
  | dispatch id declared event args => rfl
  | _ =>
      simp only [perform]
      split <;> rfl

theorem Reached.answers_dropped {w : World} (hw : Reached w) (operations : List Operation)
    (hslots : (w.performAll operations).slots.length ≤ UInt32.size) :
    ((w.answers operations).map Answer.dropped).sum = 0 := by
  induction operations generalizing w with
  | nil => rfl
  | cons operation rest ih =>
      have hchanges := perform_changes w operation
      have hbefore : w.slots.length ≤ UInt32.size :=
        Nat.le_trans (performAll_changes w (operation :: rest)).length_slots_le hslots
      have hfirst := hw.perform_dropped hbefore operation
      have hrest := ih (hw.changes hchanges) hslots
      simp only [answers, List.map_cons, List.sum_cons, hfirst, hrest]

end World

/-! ## The scheduler of a world -/

theorem Scheduler.serve_append (s : Scheduler) (first second : List Scheduler.Request) :
    s.serve (first ++ second) = (s.serve first).serve second := by
  induction first generalizing s with
  | nil => rfl
  | cons request rest ih => exact ih _

theorem Scheduler.Step.served {s s' : Scheduler} (h : Step s s') :
    ∃ requests, s' = s.serve requests := by
  cases h with
  | idle => exact ⟨[], rfl⟩
  | suspend owner c => exact ⟨[.suspend owner c], rfl⟩
  | cancel owner => exact ⟨[.cancel owner], rfl⟩
  | poll dt => exact ⟨[.poll dt], rfl⟩

namespace World

theorem Changes.served {w w' : World} (h : Changes w w') :
    ∃ requests, w'.scheduler = w.scheduler.serve requests := by
  induction h with
  | refl => exact ⟨[], rfl⟩
  | tail _ hchange ih =>
      obtain ⟨before, hbefore⟩ := ih
      obtain ⟨request, hrequest⟩ := hchange.scheduler.served
      exact ⟨before ++ request, by rw [Scheduler.serve_append, ← hbefore, hrequest]⟩

end World

/-! ## Nothing is lost -/

namespace World

theorem performAll_unbalanced {w : World} (hempty : w.scheduler.size = 0)
    {before : List Operation} {dt : Float32}
    (hgone : 0 < (tick (w.performAll before) dt).2.dropped +
      (tick (w.performAll before) dt).2.lost.length) :
    ((w.answers (before ++ [.tick dt])).map Answer.suspensions).sum ≠
      ((w.answers (before ++ [.tick dt])).map Answer.resumptions).sum +
        w.cancelled (before ++ [.tick dt]) +
        (w.performAll (before ++ [.tick dt])).scheduler.size := by
  have hbalance := performAll_balance w (before ++ [.tick dt])
  have hlast : (w.answers (before ++ [.tick dt])) =
      w.answers before ++ [.ticked (tick (w.performAll before) dt).2] := answers_append ..
  have hdropped : (tick (w.performAll before) dt).2.dropped ≤
      ((w.answers (before ++ [.tick dt])).map Answer.dropped).sum := by
    rw [hlast, List.map_append, List.sum_append]
    exact Nat.le_add_left _ _
  have hlost : (tick (w.performAll before) dt).2.lost.length ≤
      ((w.answers (before ++ [.tick dt])).map fun answer => answer.lost.length).sum := by
    rw [hlast, List.map_append, List.sum_append]
    exact Nat.le_add_left _ _
  omega

end World

end Nodeflow
