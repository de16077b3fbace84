import Nodeflow.Proofs.Run.Chain

/-!
# Programs that agree where a run comes

Two programs that have the same nodes wherever a run of one of them can come run alike, and
so do the chains that begin with such a run.
-/

namespace Nodeflow

/-- Programs that have the same nodes at some indices, from which no output leads away. -/
structure Program.AgreeOn (p q : Program) (live : Nat → Prop) : Prop where
  node : ∀ i, live i → q.node? i = p.node? i
  closed : ∀ i slot next, live i → p.successor? i slot = some next → live next

def BoundGraph.withProgram (graph : BoundGraph) (event : String) (program : Program) :
    BoundGraph :=
  { graph with
    blueprint := { graph.blueprint with events := graph.blueprint.events.insert event program } }

@[simp] theorem BoundGraph.find?_withProgram (graph : BoundGraph) (event : String)
    (program : Program) :
    (graph.withProgram event program).blueprint.events.find? event = some program :=
  graph.blueprint.events.find?_insert_self event program

section Agree

variable {p q : Program} {live : Nat → Prop} (h : p.AgreeOn q live)
include h

theorem Program.AgreeOn.successor? {i : Nat} (hi : live i) (slot : Nat) :
    q.successor? i slot = p.successor? i slot := by
  simp only [Program.successor?, h.node i hi]

theorem Program.AgreeOn.bind_successor? {i : Nat} (hi : live i) (slot : Option Nat) :
    slot.bind (q.successor? i) = slot.bind (p.successor? i) := by
  cases slot with
  | none => rfl
  | some slot => exact h.successor? hi slot

theorem Program.AgreeOn.live_successor {i next : Nat} {slot : Option Nat} (hi : live i)
    (hnext : slot.bind (p.successor? i) = some next) : live next := by
  obtain ⟨slot, -, hnext⟩ := Option.bind_eq_some_iff.1 hnext
  exact h.closed i slot next hi hnext

variable (registry : Registry) (config : RuntimeConfig)

theorem execute_agree (className : String) (left : Nat) (store : Store) (frame : Frame)
    (current : Option Nat) (hcurrent : ∀ i, current = some i → live i) :
    execute registry config className q left store frame current =
        execute registry config className p left store frame current ∧
      ∀ c, (execute registry config className p left store frame current).ending = .parked c →
        live c.node := by
  revert hcurrent
  refine execute_induction (motive := fun left store frame current o =>
    (∀ i, current = some i → live i) →
      execute registry config className q left store frame current = o ∧
        ∀ c, o.ending = .parked c → live c.node)
    ?idle ?exhausted ?unregistered ?stop ?park ?advance left store frame current
  case idle =>
    intro left store frame current hidle hcurrent
    refine ⟨execute_idle ?_, nofun⟩
    cases current with
    | none => rfl
    | some i => exact (h.node i (hcurrent i rfl)).trans hidle
  case exhausted =>
    intro store frame index node hnode hcurrent
    have hnode' := (h.node index (hcurrent index rfl)).trans hnode
    exact ⟨execute_exhausted hnode', nofun⟩
  case unregistered =>
    intro left store frame index node hnode hcapability hcurrent
    refine ⟨execute_unregistered ?_ hcapability, nofun⟩
    exact (h.node index (hcurrent index rfl)).trans hnode
  case stop =>
    rintro left store frame index node capability run ending hnode hcapability rfl hstop hcurrent
    have hnode' := (h.node index (hcurrent index rfl)).trans hnode
    refine ⟨execute_stop hnode' hcapability hstop, ?_⟩
    rintro c ⟨⟩
    exact absurd hstop (Verdict.ending?_ne_parked _ _)
  case park =>
    rintro left store frame index node capability run slot condition hnode hcapability rfl
      hverdict - hcurrent
    have hlive := hcurrent index rfl
    refine ⟨execute_park ((h.node index hlive).trans hnode) hcapability hverdict, ?_⟩
    rintro c ⟨⟩
    exact hlive
  case advance =>
    rintro left store frame index node capability run slot rest hnode hcapability rfl hverdict
      hrest ih hcurrent
    have hlive := hcurrent index rfl
    obtain ⟨hsame, hparked⟩ := ih fun next hnext => h.live_successor hlive hnext
    refine ⟨?_, hparked⟩
    rw [execute_advance ((h.node index hlive).trans hnode) hcapability hverdict,
      h.bind_successor? hlive, hsame]

variable (graph : BoundGraph) {event : String} {found : Nat → Store → Store}

theorem resumeIn_agree (c : Continuation) (store : Store) (hevent : c.frame.event = event)
    (hlive : live c.node) :
    resumeIn registry config (graph.withProgram event q) store c =
        resumeIn registry config (graph.withProgram event p) store c ∧
      ∀ c', (resumeIn registry config (graph.withProgram event p) store c).ending = .parked c' →
        c'.frame.event = event ∧ live c'.node := by
  subst hevent
  obtain ⟨hsame, hparked⟩ := execute_agree h registry config graph.className
    (config.stepBudget - c.frame.steps) store c.frame (c.slot.bind (p.successor? c.node))
    fun next hnext => h.live_successor hlive hnext
  rw [resumeIn_eq store (graph.find?_withProgram _ q),
    resumeIn_eq store (graph.find?_withProgram _ p), h.bind_successor? hlive]
  refine ⟨congrArg (fun o : Outcome => o.after _) hsame, fun c' hc' => ?_⟩
  exact ⟨(execute_parked hc').2.1, hparked c' hc'⟩

theorem Parts.agree {n : Nat} {o : Outcome} {parts : List Outcome}
    (hparts : Parts registry config (graph.withProgram event p) found n o parts)
    (hcut : ∀ c, o.ending = .parked c → c.frame.event = event ∧ live c.node) :
    Parts registry config (graph.withProgram event q) found n o parts := by
  induction hparts with
  | last hended => exact .last hended
  | @resumed n o c rest condition hparked hrest ih =>
      obtain ⟨hevent, hlive⟩ := hcut c hparked
      obtain ⟨hsame, hcut'⟩ := resumeIn_agree h registry config graph { c with condition }
        (found n o.store) hevent hlive
      exact .resumed condition hparked (hsame ▸ ih hcut')

theorem runEvent_agree (found : Nat → Store → Store) (object : Object) (args : EventArgs)
    (hentry : q.entry? = p.entry?)
    (hstart : ∀ i, p.entry? = some i → live i) :
    ∃ parts,
      (∀ other, Parts registry config (graph.withProgram event p) found 0
        (runEvent registry config (graph.withProgram event p) object event args) other ↔
          other = parts) ∧
      ∀ other, Parts registry config (graph.withProgram event q) found 0
        (runEvent registry config (graph.withProgram event q) object event args) other ↔
          other = parts := by
  obtain ⟨hsame, hparked⟩ := execute_agree h registry config graph.className
    config.stepBudget ⟨object, graph.vars⟩ (.start event args) p.entry? hstart
  have hrun : runEvent registry config (graph.withProgram event q) object event args =
      runEvent registry config (graph.withProgram event p) object event args := by
    rw [runEvent_eq (graph.find?_withProgram event q),
      runEvent_eq (graph.find?_withProgram event p), hentry]
    exact hsame
  obtain ⟨parts, hparts⟩ := Parts.exist registry config (graph.withProgram event p) found 0
    (runEvent registry config (graph.withProgram event p) object event args)
  refine ⟨parts, hparts.iff_eq, ?_⟩
  rw [hrun]
  refine (Parts.agree h registry config graph hparts fun c hc => ?_).iff_eq
  rw [runEvent_eq (graph.find?_withProgram event p)] at hc
  exact ⟨(execute_parked hc).2.1, hparked c hc⟩

end Agree

end Nodeflow
