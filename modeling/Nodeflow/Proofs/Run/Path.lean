import Mathlib.Data.List.Chain
import Mathlib.Logic.Relation
import Nodeflow.Proofs.Program.Wiring
import Nodeflow.Proofs.Run.Execution
import Nodeflow.World.Dispatch

/-!
# Runs are walks

What a run shows of itself is where it has been.  A leg, which is what a run shows until it
ends or is cut, is a walk of the program: from node to node through the outputs that the
results select, with at most one latent node, its last.  The legs of a chain make up one
walk, for each goes on from the node at which the leg before it was cut.
-/

namespace Nodeflow

/-! ## Visits -/

structure Visit where
  index : Nat
  node : ReadyNode
  capability : Capability
  store : Store
  scope : LocalScope

namespace Visit

structure In (v : Visit) (registry : Registry) (program : Program) : Prop where
  ready : program.node? v.index = some v.node
  bound : registry.get? v.node.capability = some v.capability

def run (v : Visit) (config : RuntimeConfig) : NodeRun :=
  runNode config v.index v.node v.capability v.store v.scope

def result? (v : Visit) (config : RuntimeConfig) : Option Value :=
  match arguments config ⟨v.scope, v.store.vars, some v.store.object.fields⟩
      v.capability.descriptor.params v.node.params with
  | .error _ => none
  | .ok args =>
      match (v.capability.invoke.run.run (callContext v.capability v.store v.scope args)).1 with
      | .error _ => none
      | .ok invocation => invocation.value?

def slot? (v : Visit) (config : RuntimeConfig) : Option Nat :=
  (v.result? config).bind v.capability.descriptor.selectSlot

def next? (v : Visit) (config : RuntimeConfig) (program : Program) : Option Nat :=
  (v.slot? config).bind (program.successor? v.index)

def Leads (config : RuntimeConfig) (program : Program) (v v' : Visit) : Prop :=
  v.next? config program = some v'.index

/-- The next visit of the same leg: nothing waits in between, and nothing happens. -/
structure Passes (config : RuntimeConfig) (program : Program) (v v' : Visit) : Prop where
  leads : Leads config program v v'
  notLatent : v.capability.descriptor.latent = false
  store : v'.store = (v.run config).store
  scope : v'.scope = (v.run config).scope

theorem run_verdict (v : Visit) (config : RuntimeConfig) :
    (∃ error, (v.run config).verdict = .abort error) ∨ (v.run config).verdict = .panic ∨
      (v.capability.descriptor.latent = true ∧
        ∃ condition, (v.run config).verdict = .park (v.slot? config) condition) ∨
      (v.capability.descriptor.latent = false ∧
        (v.run config).verdict = .advance (v.slot? config)) := by
  simp only [run, runNode]
  split
  · exact .inl ⟨_, rfl⟩
  · rename_i args hargs
    simp only [callNode_eq, slot?, result?, hargs]
    generalize (v.capability.invoke.run.run (callContext v.capability v.store v.scope args)).1 =
      result
    rcases result with e | ⟨value⟩ | ⟨value, condition⟩ | _
    · exact .inl ⟨_, rfl⟩
    case ok.panic => exact .inr (.inl rfl)
    all_goals
      cases hlatent : v.capability.descriptor.latent <;>
        simp [verdictOf, hlatent, Invocation.value?]

variable {config : RuntimeConfig} {v : Visit}

theorem run_advance {slot : Option Nat} (hverdict : (v.run config).verdict = .advance slot) :
    v.slot? config = slot ∧ v.capability.descriptor.latent = false := by
  rcases v.run_verdict config with ⟨error, h⟩ | h | ⟨-, condition, h⟩ | ⟨hlatent, h⟩
  all_goals rw [h] at hverdict
  · contradiction
  · contradiction
  · contradiction
  · exact ⟨Verdict.advance.inj hverdict, hlatent⟩

theorem run_park {slot : Option Nat} {condition : Condition}
    (hverdict : (v.run config).verdict = .park slot condition) :
    v.slot? config = slot ∧ v.capability.descriptor.latent = true := by
  rcases v.run_verdict config with ⟨error, h⟩ | h | ⟨hlatent, condition, h⟩ | ⟨-, h⟩
  all_goals rw [h] at hverdict
  · contradiction
  · contradiction
  · exact ⟨(Verdict.park.inj hverdict).1, hlatent⟩
  · contradiction

structure Leaves (v : Visit) (config : RuntimeConfig) (className event : String)
    (c : Continuation) : Prop where
  className : c.className = className
  event : c.frame.event = event
  node : c.node = v.index
  scope : c.frame.scope = (v.run config).scope
  slot : c.slot = v.slot? config

end Visit

/-! ## Legs -/

structure Leg where
  found : Store
  scope : LocalScope
  status : Status
  trace : List TraceEvent

def shown (config : RuntimeConfig) (visits : List Visit) : List TraceEvent :=
  visits.flatMap fun v => (v.run config).trace

/--
A leg that begins at `current` shows some visits, each of which passes on to the next.  It is
suspended at a latent node, and otherwise shows nothing more than the visits.
-/
structure Leg.Walked (registry : Registry) (config : RuntimeConfig) (program : Program)
    (event : String) (opening : List TraceEvent) (current : Option Nat) (leg : Leg)
    (visits : List Visit) : Prop where
  ready : ∀ v ∈ visits, v.In registry program
  first : ∀ v ∈ visits.head?, current = some v.index ∧ v.store = leg.found ∧ v.scope = leg.scope
  linked : visits.IsChain (Visit.Passes config program)
  ended : leg.status ≠ .suspended → leg.trace = opening ++ shown config visits
  cut : leg.status = .suspended → ∃ last, visits.getLast? = some last ∧
    last.capability.descriptor.latent = true ∧
    leg.trace = opening ++ shown config visits ++ [.suspended event last.index]

def Leg.cutAt? (leg : Leg) (visits : List Visit) : Option Visit :=
  if leg.status = .suspended then visits.getLast? else none

theorem Leg.cutAt?_nil (leg : Leg) : leg.cutAt? [] = none := by
  unfold cutAt?
  split <;> rfl

namespace Leg.Walked

variable {registry : Registry} {config : RuntimeConfig} {program : Program} {event : String}
  {opening : List TraceEvent} {current : Option Nat} {leg : Leg} {visits : List Visit}

theorem nothing (hstatus : leg.status ≠ .suspended) (htrace : leg.trace = opening) :
    leg.Walked registry config program event opening current [] where
  ready := nofun
  first := nofun
  linked := .nil
  ended _ := by simp [htrace, shown]
  cut h := absurd h hstatus

theorem cons {v : Visit} (hv : v.In registry program)
    (hnotLatent : v.capability.descriptor.latent = false)
    (h : leg.Walked registry config program event [] (v.next? config program) visits)
    (hfound : leg.found = (v.run config).store) (hscope : leg.scope = (v.run config).scope) :
    Walked registry config program event [] (some v.index)
      ⟨v.store, v.scope, leg.status, (v.run config).trace ++ leg.trace⟩ (v :: visits) where
  ready u hu := by
    rcases List.mem_cons.1 hu with rfl | hu
    · exact hv
    · exact h.ready u hu
  first u hu := by
    obtain rfl : v = u := by simpa using hu
    exact ⟨rfl, rfl, rfl⟩
  linked := by
    refine List.isChain_cons.2 ⟨fun u hu => ?_, h.linked⟩
    obtain ⟨hnext, hstore, hscope'⟩ := h.first u hu
    exact ⟨hnext, hnotLatent, hstore.trans hfound, hscope'.trans hscope⟩
  ended hstatus := by
    rw [h.ended hstatus]
    simp [shown]
  cut hstatus := by
    obtain ⟨last, hlast, hlatent, htrace⟩ := h.cut hstatus
    refine ⟨last, by simp [List.getLast?_cons, hlast], hlatent, ?_⟩
    rw [htrace]
    simp [shown]

theorem after (h : leg.Walked registry config program event [] current visits)
    (opening : List TraceEvent) :
    Walked registry config program event opening current
      { leg with trace := opening ++ leg.trace } visits where
  ready := h.ready
  first := h.first
  linked := h.linked
  ended hstatus := by
    rw [h.ended hstatus]
    simp
  cut hstatus := by
    obtain ⟨last, hlast, hlatent, htrace⟩ := h.cut hstatus
    refine ⟨last, hlast, hlatent, ?_⟩
    rw [htrace]
    simp

end Leg.Walked

def Outcome.leg (o : Outcome) (status : Status) (found : Store) (scope : LocalScope) : Leg :=
  ⟨found, scope, status, o.trace⟩

theorem execute_walked (registry : Registry) (config : RuntimeConfig) (className : String)
    (program : Program) (left : Nat) (store : Store) (frame : Frame) (current : Option Nat)
    {status : Status} :
    let o := execute registry config className program left store frame current
    o.ending.status? = some status →
    ∃ visits, (o.leg status store frame.scope).Walked registry config program frame.event []
        current visits ∧
      ∀ c, o.ending = .parked c →
        ∀ last ∈ visits.getLast?, last.Leaves config className frame.event c := by
  intro o
  refine execute_induction (motive := fun _ store frame current o =>
    o.ending.status? = some status →
    ∃ visits, (o.leg status store frame.scope).Walked registry config program frame.event []
        current visits ∧
      ∀ c, o.ending = .parked c →
        ∀ last ∈ visits.getLast?, last.Leaves config className frame.event c)
    ?idle ?exhausted ?unregistered ?stop ?park ?advance left store frame current
  case idle =>
    rintro left store frame current - ⟨⟩
    exact ⟨[], .nothing nofun rfl, nofun⟩
  case exhausted =>
    rintro store frame index node - ⟨⟩
    exact ⟨[], .nothing nofun rfl, nofun⟩
  case unregistered =>
    rintro left store frame index node - - ⟨⟩
    exact ⟨[], .nothing nofun rfl, nofun⟩
  case stop =>
    rintro left store frame index node capability run ending hnode hcapability rfl hstop hstatus
    obtain ⟨error, -, rfl⟩ | ⟨-, rfl⟩ := Verdict.ending?_eq_some.1 hstop
    swap
    · contradiction
    cases hstatus
    refine ⟨[⟨index, node, capability, store, frame.scope⟩], ⟨?_, ?_, ?_, ?_, nofun⟩, nofun⟩
    · simpa using ⟨hnode, hcapability⟩
    · simp [Outcome.leg]
    · exact .singleton _
    · intro _
      simp [Outcome.leg, shown, Visit.run]
  case park =>
    rintro left store frame index node capability run slot condition hnode hcapability rfl
      hverdict - ⟨⟩
    let v : Visit := ⟨index, node, capability, store, frame.scope⟩
    obtain ⟨hslot, hlatent⟩ := v.run_park hverdict
    refine ⟨[v], ⟨?_, ?_, ?_, fun h => absurd rfl h, ?_⟩, ?_⟩
    · simpa using ⟨hnode, hcapability⟩
    · simp [Outcome.leg, v]
    · exact .singleton _
    · intro _
      exact ⟨v, rfl, hlatent, by simp [Outcome.leg, shown, Visit.run, v]⟩
    · rintro c ⟨⟩ last hlast
      obtain rfl : v = last := by simpa using hlast
      exact ⟨rfl, rfl, rfl, rfl, hslot.symm⟩
  case advance =>
    rintro left store frame index node capability run slot rest hnode hcapability rfl hverdict -
      ih hrest
    obtain ⟨visits, hwalked, hparked⟩ := ih hrest
    let v : Visit := ⟨index, node, capability, store, frame.scope⟩
    obtain ⟨rfl, hnotLatent⟩ := v.run_advance hverdict
    refine ⟨v :: visits, .cons ⟨hnode, hcapability⟩ hnotLatent hwalked rfl rfl, ?_⟩
    intro c hc last hlast
    have hstatus : status = .suspended := by
      have hc : rest.ending = .parked c := hc
      have hrest : rest.ending.status? = some status := hrest
      rw [hc] at hrest
      exact (Option.some.inj hrest).symm
    obtain ⟨last', hlast', -⟩ := hwalked.cut hstatus
    refine hparked c hc last ?_
    simpa [List.getLast?_cons, hlast'] using hlast

section Graph

variable (registry : Registry) (config : RuntimeConfig) {graph : BoundGraph} {program : Program}
  {event : String} (hprogram : graph.blueprint.events.find? event = some program)
  (object : Object)
include hprogram

theorem runEvent_walked (args : EventArgs) {status : Status} :
    let o := runEvent registry config graph object event args
    o.ending.status? = some status →
    ∃ visits, (o.leg status ⟨object, graph.vars⟩ (.forEvent event args)).Walked registry config
        program event [] program.entry? visits ∧
      ∀ c, o.ending = .parked c →
        ∀ last ∈ visits.getLast?, last.Leaves config graph.className event c := by
  intro o
  have hrun : o = execute registry config graph.className program config.stepBudget
      ⟨object, graph.vars⟩ (.start event args) program.entry? := runEvent_eq hprogram
  rw [hrun]
  exact execute_walked registry config graph.className program config.stepBudget
    ⟨object, graph.vars⟩ (.start event args) program.entry?

theorem resume_walked {v : Visit} {c : Continuation}
    (hleaves : v.Leaves config graph.className event c) {status : Status} :
    let o := resume registry config graph object c
    o.ending.status? = some status →
    ∃ visits, (o.leg status ⟨object, graph.vars⟩ (v.run config).scope).Walked registry config
        program event [.resumed event v.index] (v.next? config program) visits ∧
      ∀ c', o.ending = .parked c' →
        ∀ last ∈ visits.getLast?, last.Leaves config graph.className event c' := by
  intro o hstatus
  obtain ⟨-, rfl, hnode, hscope, hslot⟩ := hleaves
  have hnext : v.next? config program = c.slot.bind (program.successor? c.node) := by
    rw [Visit.next?, hslot, hnode]
  have hrun : o = (execute registry config graph.className program
      (config.stepBudget - c.frame.steps) ⟨object, graph.vars⟩ c.frame
      (c.slot.bind (program.successor? c.node))).after [.resumed c.frame.event c.node] :=
    resume_eq hprogram
  rw [hrun] at hstatus ⊢
  rw [hnext, ← hnode, ← hscope]
  obtain ⟨visits, hwalked, hparked⟩ := execute_walked registry config graph.className program
    (config.stepBudget - c.frame.steps) ⟨object, graph.vars⟩ c.frame
    (c.slot.bind (program.successor? c.node)) hstatus
  exact ⟨visits, hwalked.after _, hparked⟩

end Graph

/-! ## Chains of legs -/

/--
The legs of a chain after a visit at which it was cut: each goes on from where the one before
was cut, with the scope that was left there, and may find another store.
-/
inductive Trail (registry : Registry) (config : RuntimeConfig) (program : Program)
    (event : String) : Option Visit → List Leg → List (List Visit) → Prop
  | ended (at' : Option Visit) : Trail registry config program event at' [] []
  | leg {v : Visit} {leg : Leg} {visits : List Visit} {legs : List Leg}
      {rest : List (List Visit)} (hscope : leg.scope = (v.run config).scope)
      (hleg : leg.Walked registry config program event [.resumed event v.index]
        (v.next? config program) visits)
      (hrest : Trail registry config program event (leg.cutAt? visits) legs rest) :
      Trail registry config program event (some v) (leg :: legs) (visits :: rest)

/-! ## What legs show -/

structure Leg.Shows (config : RuntimeConfig) (program : Program) (event : String) (leg : Leg)
    (visits : List Visit) : Prop where
  entered : leg.trace.filterMap TraceEvent.entered? = visits.map Visit.index
  found : ∀ v ∈ visits.head?, v.store = leg.found ∧ v.scope = leg.scope
  passes : visits.IsChain (Visit.Passes config program)
  suspended : leg.status = .suspended ↔ ∃ last, visits.getLast? = some last ∧
    last.capability.descriptor.latent = true ∧
    leg.trace.getLast? = some (.suspended event last.index)
  uncut : leg.status ≠ .suspended → ∀ e n, .suspended e n ∉ leg.trace
  alone : ∀ v ∈ visits.dropLast, v.capability.descriptor.latent = false

section Shown

variable {config : RuntimeConfig} {visits : List Visit}

theorem shown_entered (htrace : config.traceNodes = true) :
    (shown config visits).filterMap TraceEvent.entered? = visits.map Visit.index := by
  induction visits with
  | nil => rfl
  | cons v visits ih =>
      have hv : (v.run config).trace.filterMap TraceEvent.entered? = [v.index] := by
        rw [Visit.run, runNode_entered, if_pos htrace]
      simp only [shown, List.flatMap_cons, List.filterMap_append, List.map_cons] at ih ⊢
      rw [hv, ih, List.singleton_append]

theorem shown_isCut {e : TraceEvent} (he : e ∈ shown config visits) : e.isCut = false := by
  obtain ⟨v, -, he⟩ := List.mem_flatMap.1 he
  exact runNode_isCut e he

theorem passes_notLatent {program : Program} (h : visits.IsChain (Visit.Passes config program)) :
    ∀ v ∈ visits.dropLast, v.capability.descriptor.latent = false := by
  induction h with
  | nil => nofun
  | singleton v => nofun
  | @cons_cons v v' rest hpass _ ih =>
      intro u hu
      rcases List.mem_cons.1 hu with rfl | hu
      · exact hpass.notLatent
      · exact ih u hu

end Shown

namespace Leg.Walked

variable {registry : Registry} {config : RuntimeConfig} {program : Program} {event : String}
  {opening : List TraceEvent} {current : Option Nat} {leg : Leg} {visits : List Visit}
  (h : leg.Walked registry config program event opening current visits)
include h

theorem cutAt?_eq_some {last : Visit} (hlast : leg.cutAt? visits = some last) :
    visits.getLast? = some last ∧ leg.trace.getLast? = some (.suspended event last.index) := by
  unfold cutAt? at hlast
  split at hlast
  · rename_i hstatus
    obtain ⟨last', hlast', -, htrace⟩ := h.cut hstatus
    obtain rfl : last' = last := Option.some.inj (hlast'.symm.trans hlast)
    exact ⟨hlast, by rw [htrace, List.getLast?_append]; rfl⟩
  · contradiction

theorem shows (htrace : config.traceNodes = true)
    (hentered : opening.filterMap TraceEvent.entered? = [])
    (hopening : ∀ e n, .suspended e n ∉ opening) : leg.Shows config program event visits := by
  have huncut : leg.status ≠ .suspended → ∀ e n, .suspended e n ∉ leg.trace := by
    intro hstatus e n he
    rw [h.ended hstatus] at he
    rcases List.mem_append.1 he with he | he
    · exact hopening e n he
    · have := shown_isCut he
      contradiction
  refine ⟨?_, ?_, h.linked, ⟨?_, ?_⟩, huncut, passes_notLatent h.linked⟩
  · by_cases hstatus : leg.status = .suspended
    · obtain ⟨last, -, -, hcut⟩ := h.cut hstatus
      rw [hcut, List.filterMap_append, List.filterMap_append, hentered, shown_entered htrace]
      simp [TraceEvent.entered?]
    · rw [h.ended hstatus, List.filterMap_append, hentered, shown_entered htrace,
        List.nil_append]
  · exact fun v hv => (h.first v hv).2
  · intro hstatus
    obtain ⟨last, hlast, hlatent, htrace⟩ := h.cut hstatus
    exact ⟨last, hlast, hlatent, by rw [htrace, List.getLast?_append]; rfl⟩
  · rintro ⟨last, -, -, hcut⟩
    by_contra hstatus
    exact huncut hstatus _ _ (List.mem_of_getLast? hcut)

theorem path_append {rest : List Visit}
    (hrest : ((leg.cutAt? visits).toList ++ rest).IsChain (Visit.Leads config program))
    (hover : leg.cutAt? visits = none → rest = []) :
    (visits ++ rest).IsChain (Visit.Leads config program) := by
  have hvisits : visits.IsChain (Visit.Leads config program) := h.linked.imp fun _ _ => (·.leads)
  cases hcut : leg.cutAt? visits with
  | none =>
      rw [hover hcut, List.append_nil]
      exact hvisits
  | some last =>
      obtain ⟨hlast, -⟩ := h.cutAt?_eq_some hcut
      rw [hcut, Option.toList_some, List.singleton_append, List.isChain_cons] at hrest
      refine List.isChain_append.2 ⟨hvisits, hrest.2, ?_⟩
      intro v hv v' hv'
      obtain rfl : last = v := Option.some.inj (hlast.symm.trans hv)
      exact hrest.1 v' hv'

end Leg.Walked

/-! ## What chains show -/

/--
The legs of a chain make up one path of the program: it begins at the entry, goes on through
the outputs that the results select, and where a leg was cut the next one is resumed.
-/
structure IsPath (registry : Registry) (config : RuntimeConfig) (program : Program)
    (event : String) (legs : List Leg) (visits : List (List Visit)) : Prop where
  shows : List.Forall₂ (Leg.Shows config program event) legs visits
  ready : ∀ v ∈ visits.flatten, v.In registry program
  entry : ∀ v ∈ visits.flatten.head?, program.entry? = some v.index
  leads : visits.flatten.IsChain (Visit.Leads config program)
  resumed : legs.IsChain fun leg next => ∃ n,
    leg.trace.getLast? = some (.suspended event n) ∧ next.trace.head? = some (.resumed event n)

namespace Trail

variable {registry : Registry} {config : RuntimeConfig} {program : Program} {event : String}
  {legs : List Leg} {visits : List (List Visit)}

theorem of_none (h : Trail registry config program event none legs visits) :
    legs = [] ∧ visits.flatten = [] := by
  cases h with
  | ended => exact ⟨rfl, rfl⟩

theorem leads {at' : Option Visit} (h : Trail registry config program event at' legs visits) :
    (at'.toList ++ visits.flatten).IsChain (Visit.Leads config program) := by
  induction h with
  | ended at' => cases at' <;> simp
  | @leg v leg first legs rest hscope hleg hrest ih =>
      have hpath := hleg.path_append ih fun hover => (of_none (hover ▸ hrest)).2
      simp only [Option.toList_some, List.singleton_append, List.flatten_cons]
      refine List.isChain_cons.2 ⟨fun v' hv' => ?_, hpath⟩
      cases first with
      | nil =>
          rw [leg.cutAt?_nil] at hrest
          simp [(of_none hrest).2] at hv'
      | cons u first => exact (hleg.first v' (by simpa using hv')).1

theorem head_resumed {v : Visit} (h : Trail registry config program event (some v) legs visits) :
    ∀ leg ∈ legs.head?, leg.trace.head? = some (.resumed event v.index) := by
  cases h with
  | ended => nofun
  | @leg _ leg first legs rest hscope hleg hrest =>
      intro l hl
      obtain rfl : leg = l := by simpa using hl
      by_cases hstatus : leg.status = .suspended
      · obtain ⟨last, -, -, htrace⟩ := hleg.cut hstatus
        rw [htrace]
        rfl
      · rw [hleg.ended hstatus]
        rfl

theorem resumed_after {opening : List TraceEvent} {current : Option Nat} {leg : Leg}
    {first : List Visit} (hleg : leg.Walked registry config program event opening current first)
    (hrest : Trail registry config program event (leg.cutAt? first) legs visits) :
    ∀ next ∈ legs.head?, ∃ n,
      leg.trace.getLast? = some (.suspended event n) ∧
        next.trace.head? = some (.resumed event n) := by
  intro next hnext
  cases hcut : leg.cutAt? first with
  | none =>
      rw [hcut] at hrest
      simp [(of_none hrest).1] at hnext
  | some last =>
      rw [hcut] at hrest
      exact ⟨last.index, (hleg.cutAt?_eq_some hcut).2, hrest.head_resumed next hnext⟩

section

variable {at' : Option Visit} (h : Trail registry config program event at' legs visits)
include h

theorem resumed :
    legs.IsChain fun leg next => ∃ n,
      leg.trace.getLast? = some (.suspended event n) ∧
        next.trace.head? = some (.resumed event n) := by
  induction h with
  | ended => exact .nil
  | leg hscope hleg hrest ih => exact List.isChain_cons.2 ⟨resumed_after hleg hrest, ih⟩

theorem ready : ∀ v ∈ visits.flatten, v.In registry program := by
  induction h with
  | ended => nofun
  | leg hscope hleg hrest ih =>
      intro v hv
      rcases List.mem_append.1 hv with hv | hv
      · exact hleg.ready v hv
      · exact ih v hv

theorem shows (htrace : config.traceNodes = true) :
    List.Forall₂ (Leg.Shows config program event) legs visits := by
  induction h with
  | ended => exact .nil
  | leg hscope hleg hrest ih => exact .cons (hleg.shows htrace rfl (by simp)) ih

end

end Trail

theorem isPath_of_trail {registry : Registry} {config : RuntimeConfig} {program : Program}
    {event : String} {first : Leg} {visits : List Visit} {legs : List Leg}
    {rest : List (List Visit)} (htrace : config.traceNodes = true)
    (hfirst : first.Walked registry config program event [] program.entry? visits)
    (hrest : Trail registry config program event (first.cutAt? visits) legs rest) :
    IsPath registry config program event (first :: legs) (visits :: rest) where
  shows := .cons (hfirst.shows htrace rfl nofun) (hrest.shows htrace)
  ready v hv := by
    rcases List.mem_append.1 hv with hv | hv
    · exact hfirst.ready v hv
    · exact hrest.ready v hv
  entry v hv := by
    cases visits with
    | nil =>
        rw [first.cutAt?_nil] at hrest
        simp [(Trail.of_none hrest).2] at hv
    | cons u visits => exact (hfirst.first v (by simpa using hv)).1
  leads := hfirst.path_append hrest.leads fun hover => (Trail.of_none (hover ▸ hrest)).2
  resumed := List.isChain_cons.2 ⟨Trail.resumed_after hfirst hrest, hrest.resumed⟩

theorem IsPath.reachable {registry : Registry} {config : RuntimeConfig} {program : Program}
    {event : String} {legs : List Leg} {visits : List (List Visit)}
    (h : IsPath registry config program event legs visits) {links : List Link}
    (hlinks : ∀ i slot j, program.successor? i slot = some j → program.Linked links i j) :
    ∀ v ∈ visits.flatten, ∃ start, program.entry? = some start ∧
      Relation.ReflTransGen (program.Linked links) start v.index := by
  refine h.leads.induction _ _ ?_ fun hvisits => ?_
  · rintro v v' hleads ⟨start, hstart, hreach⟩
    obtain ⟨slot, -, hnext⟩ := Option.bind_eq_some_iff.1 hleads
    exact ⟨start, hstart, hreach.tail (hlinks _ slot _ hnext)⟩
  · exact ⟨_, h.entry _ (List.head?_eq_some_head hvisits), .refl⟩

end Nodeflow
