import Nodeflow.Proofs.Program.Links
import Nodeflow.Proofs.Run.Path
import Nodeflow.Proofs.World.Orphans

/-!
# Chains in a world

An event that a graph takes begins a chain.  When a part of a run is parked, the rest of the
chain waits under the number it was parked with, and the resumption that this number brings
about is the next part, whatever else happens to the world in between.  With nodes recorded,
the reports of the parts tell one path of the program.
-/

namespace Nodeflow

/-! ## Taking an event -/

def Object.asked (event : String) (args : EventArgs) (classes : List ClassInfo) (o : Object) :
    Object :=
  classes.foldl
    (fun o c => if c.isGenerated then o else (o.callNative c.name event args).object) o

def Entry.askedUpTo (entry : Entry) (event : String) (args : EventArgs)
    (chain : List ClassInfo) (name : String) : Object :=
  entry.object.asked event args (chain.takeWhile fun c => c.name != name)

structure Takes (registry : Registry) (config : RuntimeConfig) (event : String)
    (args : EventArgs) (chain : List ClassInfo) (entry : Entry) (name : String) (found : Found)
    (graph : BoundGraph) (outcome : Outcome) : Prop where
  held : entry.graphs.find? name = some graph
  runnable : ∃ c ∈ chain, c.name = name ∧ ∃ blueprint, c.blueprint = some blueprint ∧
    ((blueprint.events.find? event).bind Program.entry?).isSome
  ran : outcome =
    runEvent registry config graph (entry.askedUpTo event args chain name) event args
  leaves : found.entry = entry.after graph outcome.store
  handles : found.handler = .graph name
  shows : found.trace = outcome.trace ∧ found.notes = []
  ends : found.ending = outcome.ending

theorem Found.report_eq_ok {found : Found} {report : DispatchReport} :
    found.report = .ok report ↔ ∃ status, found.ending.status? = some status ∧
      report = ⟨found.handler, status, found.trace, found.notes⟩ := by
  unfold Found.report
  cases found.ending.status? <;> simp [eq_comm]

theorem Takes.report {registry : Registry} {config : RuntimeConfig} {event : String}
    {args : EventArgs} {chain : List ClassInfo} {entry : Entry} {name : String} {found : Found}
    {graph : BoundGraph} {outcome : Outcome} {report : DispatchReport}
    (h : Takes registry config event args chain entry name found graph outcome)
    (hreport : found.report = .ok report) :
    outcome.ending.status? = some report.status ∧
      report = ⟨.graph name, report.status, outcome.trace, []⟩ := by
  obtain ⟨status, hstatus, rfl⟩ := Found.report_eq_ok.1 hreport
  rw [h.ends] at hstatus
  simp only [h.handles, h.shows, hstatus, and_self]

theorem offer_takes {registry : Registry} {config : RuntimeConfig} {event : String}
    {args : EventArgs} {chain : List ClassInfo} {entry : Entry} {found : Found} {name : String}
    (h : offer registry config event args entry chain = .ok found)
    (hhandler : found.handler = .graph name) (hnodup : (chain.map ClassInfo.name).Nodup) :
    ∃ graph outcome, Takes registry config event args chain entry name found graph outcome := by
  induction chain generalizing entry with
  | nil => contradiction
  | cons c rest ih =>
      rw [List.map_cons, List.nodup_cons] at hnodup
      obtain ⟨hnew, hnodup⟩ := hnodup
      -- A class further down the chain takes the event, so the first one was only asked.
      have hlater : ∀ entry' : Entry, entry'.graphs = entry.graphs →
          entry'.object = entry.object.asked event args [c] →
          offer registry config event args entry' rest = .ok found →
          ∃ graph outcome, Takes registry config event args (c :: rest) entry name found graph
            outcome := by
        intro entry' hgraphs hobject hrest
        obtain ⟨graph, outcome, htakes⟩ := ih hrest hnodup
        obtain ⟨d, hd, hname, hrunnable⟩ := htakes.runnable
        have hne : (c.name != name) = true := by
          rw [← hname, bne_iff_ne]
          intro heq
          exact hnew (heq ▸ List.mem_map_of_mem hd)
        refine ⟨graph, outcome, hgraphs ▸ htakes.held,
          ⟨d, List.mem_cons_of_mem c hd, hname, hrunnable⟩, ?_, ?_, htakes.handles, htakes.shows,
          htakes.ends⟩
        · rw [htakes.ran, Entry.askedUpTo, Entry.askedUpTo, hobject, List.takeWhile_cons,
            if_pos hne]
          rfl
        · rw [htakes.leaves]
          simp only [Entry.after, hgraphs]
      unfold offer at h
      cases hblueprint : c.blueprint with
      | none =>
          simp only [hblueprint] at h
          split at h
          · cases h
            contradiction
          · cases h
            contradiction
          · refine hlater
              { entry with object := (entry.object.callNative c.name event args).object } rfl ?_ h
            simp [Object.asked, ClassInfo.isGenerated, hblueprint]
      | some blueprint =>
          simp only [hblueprint] at h
          split at h
          · exact hlater entry rfl (by simp [Object.asked, ClassInfo.isGenerated, hblueprint]) h
          · rename_i graph hrunnable
            cases h
            obtain rfl : c.name = name := Handler.graph.inj hhandler
            unfold Entry.runnable? at hrunnable
            split at hrunnable
            · rename_i hentry
              refine ⟨graph, runEvent registry config graph entry.object event args, hrunnable,
                ⟨c, List.mem_cons_self, rfl, blueprint, hblueprint, hentry⟩, ?_, rfl, rfl,
                ⟨rfl, rfl⟩, rfl⟩
              simp [Entry.askedUpTo, Object.asked]
            · contradiction

/-! ## Built classes -/

namespace World

variable {w w' : World}

theorem Reached.built (hw : Reached w) {c : ClassInfo} (hc : c ∈ w.classes.classes)
    {b : Blueprint} (hb : c.blueprint = some b) :
    ∃ d : GraphDefinition, b = (d.build w.registry w.config).blueprint := by
  revert c b
  refine hw.preserve (motive := fun w => ∀ {c}, c ∈ w.classes.classes → ∀ {b},
    c.blueprint = some b → ∃ d : GraphDefinition, b = (d.build w.registry w.config).blueprint)
    ?empty ?change
  case empty =>
    intro config registry c hc
    contradiction
  case change =>
    intro w w' _ ih hchange c hc b hb
    rw [hchange.registry, hchange.config]
    rcases hchange.classes with hsame | ⟨new, hinsert, hbuilt⟩
    · exact ih (hsame ▸ hc) hb
    · rw [(ClassTable.insert_eq_ok hinsert).1] at hc
      rcases List.mem_cons.1 hc with rfl | hc
      · exact hbuilt b hb
      · exact ih hc hb

/-! ## The program of a chain -/

structure Runs (w : World) (registry : Registry) (config : RuntimeConfig)
    (className event : String) (program : Program) : Prop where
  registry : w.registry = registry
  config : w.config = config
  program : ∃ c ∈ w.classes.classes, c.name = className ∧ ∃ b, c.blueprint = some b ∧
    b.events.find? event = some program

section Runs

variable {registry : Registry} {config : RuntimeConfig} {className event : String}
  {program : Program}

theorem Runs.change (h : Runs w registry config className event program)
    (hchange : Change w w') : Runs w' registry config className event program := by
  obtain ⟨c, hc, hrest⟩ := h.program
  refine ⟨hchange.registry.trans h.registry, hchange.config.trans h.config, c, ?_, hrest⟩
  rcases hchange.classes with hsame | ⟨new, hinsert, -⟩
  · exact hsame ▸ hc
  · exact (ClassTable.insert_eq_ok hinsert).1 ▸ List.mem_cons_of_mem new hc

theorem Runs.changes (h : Runs w registry config className event program)
    (hchanges : Changes w w') : Runs w' registry config className event program := by
  induction hchanges with
  | refl => exact h
  | tail _ hchange ih => exact ih.change hchange

theorem Runs.graph (h : Runs w registry config className event program) (hw : Reached w)
    {id : ObjectId} {entry : Entry} (hentry : w.entry? id = some entry) {graph : BoundGraph}
    (hgraph : entry.graphs.find? className = some graph) :
    graph.className = className ∧ graph.blueprint.events.find? event = some program := by
  obtain ⟨c, hc, hname, b, hb, hprogram⟩ := h.program
  obtain ⟨spawned, hbound⟩ := hw.bound hentry
  obtain ⟨hclass, -, c', hc', hname', hb'⟩ := hbound.sound className graph hgraph
  have hfound := ClassTable.get?_of_mem ((ClassTable.chainIn_sublist _ _).subset hc')
  obtain rfl : c = c' := by
    rw [hname', ← hname, ClassTable.get?_of_mem hc] at hfound
    exact Option.some.inj hfound
  obtain rfl : b = graph.blueprint := Option.some.inj (hb.symm.trans hb')
  exact ⟨hclass, hprogram⟩

end Runs

end World

/-! ## Waiting under a number -/

structure Scheduler.Awaits (s : Scheduler) (config : RuntimeConfig) (owner : ObjectId)
    (className event : String) (v : Visit) (n : Nat) : Prop where
  given : n < s.nextId
  held : ∀ p ∈ s.parked, p.id = n →
    p.owner = owner ∧ v.Leaves config className event p.continuation

section Waiting

variable {config : RuntimeConfig} {owner : ObjectId} {className event : String} {v : Visit}
  {n : Nat}

theorem Visit.Leaves.poll {p : Parked} (h : v.Leaves config className event p.continuation)
    (dt : Float32) : v.Leaves config className event (p.poll dt).1.continuation :=
  ⟨h.className, h.event, h.node, h.scope, h.slot⟩

namespace Scheduler

theorem Awaits.poll {s : Scheduler} (h : s.Awaits config owner className event v n)
    {dt : Float32} {q : Parked} (hq : q ∈ (s.poll dt).1.parked ∨ q ∈ (s.poll dt).2)
    (hid : q.id = n) : q.owner = owner ∧ v.Leaves config className event q.continuation := by
  obtain ⟨p, hp, rfl⟩ := mem_poll hq
  obtain ⟨howner, hleaves⟩ := h.held p hp hid
  exact ⟨howner, hleaves.poll dt⟩

theorem Awaits.step {s s' : Scheduler} (h : s.Awaits config owner className event v n)
    (hstep : Step s s') : s'.Awaits config owner className event v n := by
  cases hstep with
  | idle => exact h
  | suspend owner' c =>
      refine ⟨Nat.lt_succ_of_lt h.given, fun p hp hid => ?_⟩
      rcases List.mem_append.1 hp with hp | hp
      · exact h.held p hp hid
      · obtain rfl := List.mem_singleton.1 hp
        exact absurd hid (Nat.ne_of_gt h.given)
  | cancel owner' => exact ⟨h.given, fun p hp hid => h.held p (List.mem_filter.1 hp).1 hid⟩
  | poll dt => exact ⟨h.given, fun q hq hid => h.poll (.inl hq) hid⟩

theorem Numbered.awaits {s : Scheduler} (h : s.Numbered) {c : Continuation}
    (hleaves : v.Leaves config className event c) :
    (s.suspend owner c).1.Awaits config owner className event v s.nextId := by
  refine ⟨Nat.lt_succ_self _, fun p hp hid => ?_⟩
  rcases List.mem_append.1 hp with hp | hp
  · exact absurd hid (Nat.ne_of_lt (h.below p hp))
  · obtain rfl := List.mem_singleton.1 hp
    exact ⟨rfl, hleaves⟩

end Scheduler

end Waiting

namespace World

variable {w w' : World}

/-- A chain that was cut at a visit waits under a number, or it is over. -/
def Holds (w : World) (config : RuntimeConfig) (owner : ObjectId) (className event : String)
    (at' : Option Visit) (waiting : Option Nat) : Prop :=
  ∀ n ∈ waiting, ∃ v ∈ at', w.scheduler.Awaits config owner className event v n

def number? (w : World) (status : Status) : Option Nat :=
  if status = .suspended then some w.scheduler.nextId else none

section Holds

variable {registry : Registry} {config : RuntimeConfig} {owner : ObjectId}
  {className event : String} {program : Program} {at' : Option Visit} {waiting : Option Nat}

theorem Holds.changes (h : Holds w config owner className event at' waiting)
    (hchanges : Changes w w') : Holds w' config owner className event at' waiting := by
  intro n hn
  obtain ⟨v, hv, hawaits⟩ := h n hn
  refine ⟨v, hv, ?_⟩
  clear hv
  induction hchanges with
  | refl => exact hawaits
  | tail _ hchange ih => exact ih.step hchange.scheduler

theorem holds_park (hnumbered : w.scheduler.Numbered) {leg : Leg} {ending : Ending}
    (hstatus : ending.status? = some leg.status) {opening : List TraceEvent} {current : Option Nat}
    {visits : List Visit}
    (hleg : leg.Walked registry config program event opening current visits)
    (hleaves : ∀ c, ending = .parked c →
      ∀ last ∈ visits.getLast?, last.Leaves config className event c) :
    Holds (w.park owner ending) config owner className event (leg.cutAt? visits)
      (w.number? leg.status) := by
  intro n hn
  unfold number? at hn
  split at hn
  · rename_i hsuspended
    obtain rfl : w.scheduler.nextId = n := by simpa using hn
    obtain ⟨last, hlast, -⟩ := hleg.cut hsuspended
    refine ⟨last, by rw [Leg.cutAt?, if_pos hsuspended]; exact hlast, ?_⟩
    cases ending with
    | parked c => exact hnumbered.awaits (hleaves c rfl last hlast)
    | finished => simp [hsuspended, Ending.status?] at hstatus
    | aborted e => simp [hsuspended, Ending.status?] at hstatus
    | panicked => contradiction
  · contradiction

end Holds

/-! ## Following a chain -/

def found? (w : World) (p : Parked) : Option Store :=
  (w.entry? p.owner).bind fun entry =>
    (entry.graphs.find? p.continuation.className).map fun graph => ⟨entry.object, graph.vars⟩

def leg? (w : World) (p : Parked) : Option Leg :=
  (w.found? p).bind fun found => (w.resumeParked p).2.resumption?.map fun r =>
    ⟨found, p.continuation.frame.scope, r.status, r.trace⟩

/-- Follows what waits under a number while continuations are resumed in order, as far as none
panics, and tells under which number the chain waits then. -/
def follow (w : World) (waiting : Option Nat) : List Parked → List Leg × Option Nat
  | [] => ([], waiting)
  | p :: rest =>
      let (after, turn) := w.resumeParked p
      match turn with
      | .panicked => ([], waiting)
      | _ =>
          if waiting = some p.id then
            match w.leg? p with
            | some leg =>
                let later := after.follow (w.number? leg.status) rest
                (leg :: later.1, later.2)
            | none => after.follow none rest
          else after.follow waiting rest

def followThrough (w : World) (waiting : Option Nat) : Operation → List Leg × Option Nat
  | .tick dt =>
      let (scheduler, ready) := w.scheduler.poll dt
      { w with scheduler }.follow waiting ready
  | _ => ([], waiting)

def sequel (w : World) (waiting : Option Nat) : List Operation → List Leg
  | [] => []
  | operation :: rest =>
      let part := w.followThrough waiting operation
      part.1 ++ (w.perform operation).1.sequel part.2 rest

end World

def Leg.resumption (leg : Leg) (owner : ObjectId) (className event : String) : Resumption :=
  ⟨owner, className, event, leg.status, leg.trace⟩

def Answer.resumed : Answer → List Resumption
  | .ticked report => report.resumed
  | _ => []

namespace World

section Follow

variable {w : World} {registry : Registry} {config : RuntimeConfig} {owner : ObjectId}
  {className event : String} {program : Program} {at' : Option Visit} {waiting : Option Nat}

theorem resumeParked_walked (hw : Reached w)
    (hruns : Runs w registry config className event program) {p : Parked} {v : Visit}
    (howner : p.owner = owner) (hleaves : v.Leaves config className event p.continuation)
    {leg : Leg} (hleg : w.leg? p = some leg) :
    (w.resumeParked p).2 = .resumed (leg.resumption owner className event) ∧
      leg.scope = (v.run config).scope ∧
      ∃ visits, leg.Walked registry config program event [.resumed event v.index]
          (v.next? config program) visits ∧
        Holds (w.resumeParked p).1 config owner className event (leg.cutAt? visits)
          (w.number? leg.status) := by
  subst howner
  obtain ⟨found, hfound, hleg⟩ := Option.bind_eq_some_iff.1 hleg
  obtain ⟨entry, hentry, hfound⟩ := Option.bind_eq_some_iff.1 hfound
  obtain ⟨graph, hgraph, rfl⟩ := Option.map_eq_some_iff.1 hfound
  obtain ⟨r, hr, rfl⟩ := Option.map_eq_some_iff.1 hleg
  obtain ⟨rfl, hprogram⟩ := hruns.graph hw hentry (hleaves.className ▸ hgraph)
  rw [resumeParked_of_graph hentry hgraph, hruns.registry, hruns.config] at hr ⊢
  cases hstatus : (resume registry config graph entry.object p.continuation).ending.status? with
  | none => simp [hstatus, Turn.resumption?] at hr
  | some status =>
      obtain ⟨visits, hwalked, hparked⟩ :=
        resume_walked registry config hprogram entry.object hleaves hstatus
      simp only [hstatus, Turn.resumption?] at hr ⊢
      cases hr
      rw [hleaves.scope]
      refine ⟨?_, rfl, visits, hwalked, ?_⟩
      · simp only [Leg.resumption, hleaves.className, hleaves.event]
      · have hnumbered : (w.setEntry p.owner (entry.after graph
            (resume registry config graph entry.object p.continuation).store)).scheduler.Numbered :=
          hw.numbered
        exact holds_park hnumbered hstatus hwalked hparked

/-- What a part of a history adds to a chain: some legs, reported in order, which go on from
where the chain was cut, and after which it waits or is over. -/
structure Extends (registry : Registry) (config : RuntimeConfig) (owner : ObjectId)
    (className event : String) (program : Program) (at' : Option Visit) (legs : List Leg)
    (reported : List Resumption) (after : World) (waiting : Option Nat) : Prop where
  reports : (legs.map fun leg => leg.resumption owner className event).Sublist reported
  goes : ∃ later visits, after.Holds config owner className event later waiting ∧
    ∀ more rest, Trail registry config program event later more rest →
      Trail registry config program event at' (legs ++ more) (visits ++ rest)

theorem follow_extends (hw : Reached w) (hruns : Runs w registry config className event program)
    (hholds : w.Holds config owner className event at' waiting) {ready : List Parked}
    (hready : ∀ p ∈ ready, p.id < w.scheduler.nextId ∧ (waiting = some p.id →
      ∃ v ∈ at', p.owner = owner ∧ v.Leaves config className event p.continuation)) :
    Extends registry config owner className event program at' (w.follow waiting ready).1
      (w.resumeAll ready).2.resumed (w.resumeAll ready).1 (w.follow waiting ready).2 := by
  induction ready generalizing w at' waiting with
  | nil => exact ⟨.slnil, at', [], hholds, fun _ _ h => h⟩
  | cons p rest ih =>
      have hchanges := resumeParked_changes w p
      have hw' := hw.changes hchanges
      have hruns' := hruns.changes hchanges
      have hid : ∀ q ∈ rest, q.id < (w.resumeParked p).1.scheduler.nextId := by
        intro q hq
        have := (hready q (List.mem_cons_of_mem p hq)).1
        have := (resumeParked_gains w p).nextId
        omega
      unfold follow
      simp only
      split
      · rename_i hturn
        rw [resumeAll_of_panicked rest hturn]
        exact ⟨.slnil, at', [], hholds.changes hchanges, fun _ _ h => h⟩
      rename_i hturn
      obtain ⟨hfst, hresumed⟩ := resumeAll_of_not_panicked rest hturn
      rw [hfst, hresumed]
      split
      · rename_i hwaiting
        obtain ⟨v, hv, howner, hleaves⟩ := (hready p List.mem_cons_self).2 hwaiting
        split
        · rename_i leg hleg
          obtain ⟨hthis, hscope, visits, hwalked, hholds'⟩ :=
            resumeParked_walked hw hruns howner hleaves hleg
          obtain ⟨hreports, later, visits', hlater, hgoes⟩ := ih hw' hruns' hholds' fun q hq => by
            refine ⟨hid q hq, fun hnumber => ?_⟩
            -- Numbers are given once, so no other continuation has the new one.
            have hlt := (hready q (List.mem_cons_of_mem p hq)).1
            unfold number? at hnumber
            split at hnumber
            · have := Option.some.inj hnumber
              omega
            · contradiction
          refine ⟨?_, later, visits :: visits', hlater, fun more rest' hmore => ?_⟩
          · rw [hthis]
            exact hreports.cons_cons _
          · obtain rfl : at' = some v := hv
            exact .leg hscope hwalked (hgoes more rest' hmore)
        · have hover : Holds (w.resumeParked p).1 config owner className event at' none := nofun
          obtain ⟨hreports, hgoes⟩ := ih hw' hruns' hover fun q hq => ⟨hid q hq, nofun⟩
          exact ⟨hreports.trans (List.sublist_append_right _ _), hgoes⟩
      · obtain ⟨hreports, hgoes⟩ := ih hw' hruns' (hholds.changes hchanges) fun q hq =>
          ⟨hid q hq, (hready q (List.mem_cons_of_mem p hq)).2⟩
        exact ⟨hreports.trans (List.sublist_append_right _ _), hgoes⟩

theorem followThrough_extends (hw : Reached w)
    (hruns : Runs w registry config className event program)
    (hholds : w.Holds config owner className event at' waiting) (operation : Operation) :
    Extends registry config owner className event program at'
      (w.followThrough waiting operation).1 (w.perform operation).2.resumed
      (w.perform operation).1 (w.followThrough waiting operation).2 := by
  cases operation with
  | tick dt =>
      have hpoll : Changes w { w with scheduler := (w.scheduler.poll dt).1 } := .single (.poll dt)
      refine follow_extends (hw.changes hpoll) (hruns.changes hpoll) (hholds.changes hpoll) ?_
      intro q hq
      constructor
      · obtain ⟨p, hp, rfl⟩ := Scheduler.mem_poll (.inr hq)
        exact hw.numbered.below p hp
      · intro hwaiting
        obtain ⟨v, hv, hawaits⟩ := hholds q.id hwaiting
        exact ⟨v, hv, hawaits.poll (.inr hq) rfl⟩
  | _ =>
      refine ⟨List.nil_sublist _, at', [], ?_, fun _ _ h => h⟩
      exact hholds.changes (perform_changes w _)

theorem sequel_trail (hw : Reached w) (hruns : Runs w registry config className event program)
    (hholds : w.Holds config owner className event at' waiting) (operations : List Operation) :
    (((w.sequel waiting operations).map fun leg => leg.resumption owner className event).Sublist
        ((w.answers operations).flatMap Answer.resumed)) ∧
      ∃ visits, Trail registry config program event at' (w.sequel waiting operations) visits := by
  induction operations generalizing w at' waiting with
  | nil => exact ⟨.slnil, [], .ended at'⟩
  | cons operation rest ih =>
      have hchanges := perform_changes w operation
      obtain ⟨hreports, later, visits, hlater, hgoes⟩ :=
        followThrough_extends hw hruns hholds operation
      obtain ⟨hreports', visits', htrail⟩ :=
        ih (hw.changes hchanges) (hruns.changes hchanges) hlater
      refine ⟨?_, visits ++ visits', hgoes _ _ htrail⟩
      simp only [sequel, answers, List.map_append, List.flatMap_cons]
      exact hreports.append hreports'

end Follow

/-! ## Whole chains -/

def begun? (w : World) (id : ObjectId) (className event : String) (args : EventArgs) :
    Option Store :=
  (w.entry? id).bind fun entry => (entry.graphs.find? className).map fun graph =>
    ⟨entry.askedUpTo event args (w.classes.chain entry.object.className) className, graph.vars⟩

theorem dispatch_takes {w : World} {id : ObjectId} {declared event : String} {args : EventArgs}
    {report : DispatchReport} {className : String}
    (hdispatch : (w.dispatch id declared event args).2 = .ok report)
    (hhandler : report.handler = .graph className) :
    ∃ entry found graph outcome, w.entry? id = some entry ∧
      Takes w.registry w.config event args (w.classes.chain entry.object.className) entry
        className found graph outcome ∧
      found.report = .ok report ∧
      (w.dispatch id declared event args).1 =
        (w.setEntry id found.entry).park id found.ending := by
  unfold dispatch at hdispatch ⊢
  cases hentry : w.entry? id with
  | none => simp [hentry] at hdispatch
  | some entry =>
      simp only [hentry] at hdispatch ⊢
      split at hdispatch
      · rename_i hconcerns
        simp only [if_pos hconcerns]
        cases hoffer : offer w.registry w.config event args entry
            (w.classes.chain entry.object.className) with
        | error entry' => simp [hoffer] at hdispatch
        | ok found =>
            simp only [hoffer] at hdispatch
            obtain ⟨status, -, rfl⟩ := Found.report_eq_ok.1 hdispatch
            obtain ⟨graph, outcome, htakes⟩ := offer_takes hoffer hhandler
              (w.classes.chain_names_nodup entry.object.className)
            exact ⟨entry, found, graph, outcome, rfl, htakes, hdispatch, rfl⟩
      · cases hdispatch
        contradiction

/--
With nodes recorded, a dispatch that the graph of a class handles and all the resumptions of
its chain tell one path of the program that was built for the event.  The first node that is
entered is the entry, and each further one is where the output leads that was selected for the
result of the node before it.  All of them can run, and accepted links lead to them from the
start.  A part is suspended exactly where its last event says so of the node it entered last,
which is latent, as no node before it in that part is; and the next part is resumed there.
-/
theorem chain_isPath {w : World} (hw : w.Reachable) (htrace : w.config.traceNodes = true)
    {id : ObjectId} {declared event : String} {args : EventArgs} {report : DispatchReport}
    {className : String} (hdispatch : (w.dispatch id declared event args).2 = .ok report)
    (hhandler : report.handler = .graph className) (operations : List Operation) :
    let after := (w.dispatch id declared event args).1
    let later := after.sequel (w.number? report.status) operations
    ∃ c d graph found visits,
      w.classes.get? className = some c ∧
      c.blueprint = some (GraphDefinition.build w.registry w.config d).blueprint ∧
      d.events.find? event = some graph ∧
      w.begun? id className event args = some found ∧
      (later.map fun leg => leg.resumption id className event).Sublist
        ((after.answers operations).flatMap Answer.resumed) ∧
      let program := (buildEvent w.registry w.config event graph (d.start? event)).1
      IsPath w.registry w.config program event
        (⟨found, .forEvent event args, report.status, report.trace⟩ :: later) visits ∧
      ∀ v ∈ visits.flatten, ∃ start, d.start? event = some start ∧
        Relation.ReflTransGen (program.Linked graph.links) start v.index := by
  intro after later
  have hreached := hw.reached
  obtain ⟨entry, found, graph, outcome, hentry, htakes, hreport, hafter⟩ :=
    dispatch_takes hdispatch hhandler
  obtain ⟨hstatus, hshown⟩ := htakes.report hreport
  obtain ⟨c, hc, rfl, blueprint, hblueprint, hrunnable⟩ := htakes.runnable
  have hc : c ∈ w.classes.classes := (ClassTable.chainIn_sublist _ _).subset hc
  obtain ⟨d, rfl⟩ := hreached.built hc hblueprint
  obtain ⟨program, hprogram⟩ : ∃ program,
      (d.build w.registry w.config).blueprint.events.find? event = some program := by
    cases hfind : (d.build w.registry w.config).blueprint.events.find? event with
    | none => simp [hfind] at hrunnable
    | some program => exact ⟨program, rfl⟩
  have hruns : Runs w w.registry w.config c.name event program :=
    ⟨rfl, rfl, c, hc, rfl, _, hblueprint, hprogram⟩
  obtain ⟨hname, hgraph⟩ := hruns.graph hreached hentry htakes.held
  let began : Store :=
    ⟨entry.askedUpTo event args (w.classes.chain entry.object.className) c.name, graph.vars⟩
  have hran : outcome = runEvent w.registry w.config graph began.object event args := htakes.ran
  obtain ⟨first, hwalked, hparked⟩ := runEvent_walked w.registry w.config hgraph
    began.object args (hran ▸ hstatus)
  rw [← hran] at hwalked hparked
  have hholds : after.Holds w.config id c.name event
      ((outcome.leg report.status began (.forEvent event args)).cutAt? first)
      (w.number? report.status) := by
    have hnumbered : (w.setEntry id found.entry).scheduler.Numbered := hreached.numbered
    rw [show after = _ from hafter, htakes.ends]
    exact holds_park hnumbered hstatus hwalked (hname ▸ hparked)
  have hchanges : Changes w after := dispatch_changes w id declared event args
  obtain ⟨hreports, rest, htrail⟩ :=
    sequel_trail (hreached.changes hchanges) (hruns.changes hchanges) hholds operations
  obtain ⟨source, hsource, rfl⟩ : ∃ source, d.events.find? event = some source ∧
      (buildEvent w.registry w.config event source (d.start? event)).1 = program := by
    rwa [GraphDefinition.find?_build_events, Option.map_eq_some_iff] at hprogram
  have hpath := isPath_of_trail htrace hwalked htrail
  refine ⟨c, d, source, began, first :: rest, ClassTable.get?_of_mem hc, hblueprint, hsource, ?_,
    hreports, ?_, ?_⟩
  · simp only [begun?, hentry, htakes.held, Option.bind_some, Option.map_some]
    rfl
  · rw [hshown]
    exact hpath
  · intro v hv
    obtain ⟨start, hstart, hreach⟩ := hpath.reachable (fun _ _ _ => buildEvent_linked) v hv
    refine ⟨start, ?_, hreach⟩
    have hstart : Program.entry? (.starting _ (d.start? event)) = some start := hstart
    rw [Program.entry?_starting, Option.filter_eq_some_iff] at hstart
    exact hstart.1

def waitTwice : GraphDefinition :=
  ⟨.ofList [("Hit",
      ⟨[⟨"NextTick", [], .origin⟩, ⟨"NextTick", [], .origin⟩], [⟨0, 1, 0⟩]⟩)],
    .ofList [("Hit", some 0)], ∅⟩

def waitingWorld : World :=
  (empty .default (Registry.empty.registerAll [Builtin.nextTick]).1).performAll
    [.registerGenerated "Enemy" none waitTwice, .spawn (.actor "Enemy")]

theorem chain_isPath_waiting :
    let hit := waitingWorld.dispatch ⟨0, 0⟩ "Enemy" "Hit" ∅
    let later := hit.1.sequel (some 0) [.tick 1, .tick 1]
    waitingWorld.Reachable ∧ waitingWorld.config.traceNodes = true ∧
      hit.2 = .ok ⟨.graph "Enemy", .suspended, [.entered 0, .suspended "Hit" 0], []⟩ ∧
      later.map Leg.trace =
        [[.resumed "Hit" 0, .entered 1, .suspended "Hit" 1], [.resumed "Hit" 1]] ∧
      ∃ program found visits, IsPath waitingWorld.registry waitingWorld.config program "Hit"
        (⟨found, .forEvent "Hit" ∅, .suspended, [.entered 0, .suspended "Hit" 0]⟩ :: later)
        visits := by
  have hreachable : waitingWorld.Reachable := ⟨_, _, _, rfl⟩
  have htrace : waitingWorld.config.traceNodes = true := by cbv
  have hhit : (waitingWorld.dispatch ⟨0, 0⟩ "Enemy" "Hit" ∅).2 =
      .ok ⟨.graph "Enemy", .suspended, [.entered 0, .suspended "Hit" 0], []⟩ := by cbv
  have hlater : ((waitingWorld.dispatch ⟨0, 0⟩ "Enemy" "Hit" ∅).1.sequel (some 0)
        [.tick 1, .tick 1]).map Leg.trace =
      [[.resumed "Hit" 0, .entered 1, .suspended "Hit" 1], [.resumed "Hit" 1]] := by cbv
  have hnumber : waitingWorld.number? .suspended = some 0 := by cbv
  obtain ⟨c, d, graph, found, visits, -, -, -, -, -, hpath, -⟩ :=
    chain_isPath hreachable htrace hhit rfl [.tick 1, .tick 1]
  rw [hnumber] at hpath
  exact ⟨hreachable, htrace, hhit, hlater, _, found, visits, hpath⟩

end World

end Nodeflow
