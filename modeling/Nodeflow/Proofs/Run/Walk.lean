import Mathlib.Data.Set.Card
import Nodeflow.Proofs.Run.Abort

/-!
# How far runs can go

The nodes that a chain executes make up a walk from the entry of its program, over all its
parts, for what is parked carries the number of nodes executed so far.  Where no accepted links
lead from a node back to itself, no walk comes to a node twice, and none has more nodes than
there are.
-/

namespace Nodeflow

namespace Program

/-- A walk from the entry of the program has a number of nodes, which all can run, and ends at
a node. -/
inductive Walk (p : Program) : Nat → Nat → Prop
  | entry {i : Nat} (hentry : p.entry? = some i) : Walk p 1 i
  | step {n i slot j : Nat} (hwalk : Walk p n i) (hnext : p.successor? i slot = some j)
      (hready : (p.node? j).isSome) : Walk p (n + 1) j

def Flows (p : Program) (links : List Link) (i j : Nat) : Prop :=
  p.Linked links i j ∧ (p.node? j).isSome

def Reaches (p : Program) (links : List Link) (i : Nat) : Prop :=
  ∃ start, p.entry? = some start ∧ Relation.ReflTransGen (p.Flows links) start i

variable {p : Program} {links : List Link}

theorem node?_of_entry? {i : Nat} (h : p.entry? = some i) : (p.node? i).isSome := by
  unfold entry? at h
  split at h
  · contradiction
  · exact (Option.filter_eq_some_iff.1 h).2

theorem Reaches.node? {i : Nat} (h : p.Reaches links i) : (p.node? i).isSome := by
  obtain ⟨start, hstart, hreach⟩ := h
  cases hreach with
  | refl => exact node?_of_entry? hstart
  | tail _ hflows => exact hflows.2

theorem Reaches.lt {i : Nat} (h : p.Reaches links i) : i < p.nodes.length := by
  obtain ⟨node, hnode⟩ := Option.isSome_iff_exists.1 h.node?
  obtain ⟨n, hn, -⟩ := Option.bind_eq_some_iff.1 hnode
  exact (List.getElem?_eq_some_iff.1 hn).1

theorem finite_reaches (p : Program) (links : List Link) : {i | p.Reaches links i}.Finite :=
  (Set.finite_lt_nat p.nodes.length).subset fun _ hi => hi.lt

theorem ncard_reaches_le (p : Program) (links : List Link) :
    {i | p.Reaches links i}.ncard ≤ p.nodes.length := by
  rw [← Finset.card_range p.nodes.length, ← Set.ncard_coe_finset]
  exact Set.ncard_le_ncard fun _ hi => Finset.mem_coe.2 (Finset.mem_range.2 hi.lt)

theorem Walk.exists_finset
    (hlinks : ∀ i slot j, p.successor? i slot = some j → p.Linked links i j)
    (hacyclic : ∀ i, p.Reaches links i → ¬Relation.TransGen (p.Flows links) i i) {n i : Nat}
    (h : p.Walk n i) :
    ∃ visited : Finset Nat, visited.card = n ∧ p.Reaches links i ∧
      ∀ k ∈ visited, p.Reaches links k ∧ Relation.ReflTransGen (p.Flows links) k i := by
  induction h with
  | @entry i hentry =>
      have hreaches : p.Reaches links i := ⟨i, hentry, .refl⟩
      refine ⟨{i}, rfl, hreaches, fun k hk => ?_⟩
      rw [Finset.mem_singleton.1 hk]
      exact ⟨hreaches, .refl⟩
  | @step n i slot j _ hnext hready ih =>
      obtain ⟨visited, hcard, ⟨start, hstart, hreach⟩, hvisited⟩ := ih
      have hflows : p.Flows links i j := ⟨hlinks i slot j hnext, hready⟩
      have hreaches : p.Reaches links j := ⟨start, hstart, hreach.tail hflows⟩
      have hnew : j ∉ visited := fun hj =>
        hacyclic j hreaches (Relation.TransGen.tail' (hvisited j hj).2 hflows)
      refine ⟨insert j visited, by rw [Finset.card_insert_of_notMem hnew, hcard], hreaches,
        fun k hk => ?_⟩
      rcases Finset.mem_insert.1 hk with rfl | hk
      · exact ⟨hreaches, .refl⟩
      · exact ⟨(hvisited k hk).1, (hvisited k hk).2.tail hflows⟩

theorem Walk.le_ncard
    (hlinks : ∀ i slot j, p.successor? i slot = some j → p.Linked links i j)
    (hacyclic : ∀ i, p.Reaches links i → ¬Relation.TransGen (p.Flows links) i i) {n i : Nat}
    (h : p.Walk n i) : n ≤ {i | p.Reaches links i}.ncard := by
  obtain ⟨visited, rfl, -, hvisited⟩ := h.exists_finset hlinks hacyclic
  rw [← Set.ncard_coe_finset]
  exact Set.ncard_le_ncard (fun k hk => (hvisited k hk).1) (finite_reaches p links)

end Program

/-! ## Runs walk -/

def Program.Exceeds (p : Program) (budget : Nat) : Prop :=
  ∃ n i, budget < n ∧ p.Walk n i

structure Ending.Keeps (ending : Ending) (program : Program) (budget : Nat) : Prop where
  parked : ∀ c, ending = .parked c → program.Walk c.frame.steps c.node
  exhausted : ∀ b, ending = .aborted (.stepBudgetExceeded b) → program.Exceeds budget

theorem Ending.Keeps.exceeds {ending : Ending} {program : Program} {budget : Nat}
    (h : ending.Keeps program budget) {b : Nat}
    (hstatus : ending.status? = some (.aborted (.stepBudgetExceeded b))) :
    program.Exceeds budget := by
  refine h.exhausted b ?_
  cases ending with
  | finished => simp [Ending.status?] at hstatus
  | parked c => simp [Ending.status?] at hstatus
  | panicked => contradiction
  | aborted e => exact congrArg _ (Status.aborted.inj (Option.some.inj hstatus))

theorem execute_keeps {registry : Registry} {config : RuntimeConfig} {className : String}
    {program : Program} {left : Nat} {store : Store} {frame : Frame} {current : Option Nat}
    (hleft : left = config.stepBudget - frame.steps)
    (hcurrent : ∀ i, current = some i → (program.node? i).isSome →
      program.Walk (frame.steps + 1) i) :
    (execute registry config className program left store frame current).ending.Keeps program
      config.stepBudget := by
  revert hleft hcurrent
  refine execute_induction (motive := fun left _ frame current o =>
    left = config.stepBudget - frame.steps →
    (∀ i, current = some i → (program.node? i).isSome → program.Walk (frame.steps + 1) i) →
    o.ending.Keeps program config.stepBudget)
    ?idle ?exhausted ?unregistered ?stop ?park ?advance left store frame current
  case idle => exact fun _ _ _ _ _ _ _ => ⟨nofun, nofun⟩
  case unregistered => exact fun _ _ _ _ _ _ _ _ _ => ⟨nofun, nofun⟩
  case exhausted =>
    intro store frame index node hnode hleft hcurrent
    refine ⟨nofun, fun _ _ => ⟨frame.steps + 1, index, by omega, ?_⟩⟩
    exact hcurrent index rfl (by simp [hnode])
  case stop =>
    rintro left store frame index node capability run ending hnode hcapability rfl hstop - -
    obtain ⟨error, hverdict, rfl⟩ | ⟨-, rfl⟩ := Verdict.ending?_eq_some.1 hstop
    · refine ⟨nofun, ?_⟩
      rintro b ⟨⟩
      have hnamed := runNode_names hverdict
      contradiction
    · exact ⟨nofun, nofun⟩
  case park =>
    rintro left store frame index node capability run slot condition hnode - rfl - - - hcurrent
    refine ⟨?_, nofun⟩
    rintro c ⟨⟩
    exact hcurrent index rfl (by simp [hnode])
  case advance =>
    rintro left store frame index node capability run slot rest hnode - rfl - - ih hleft hcurrent
    have hwalk := hcurrent index rfl (by simp [hnode])
    refine ih ?_ fun j hj hready => ?_
    · simp only [Frame.next]
      omega
    · obtain ⟨s, -, hnext⟩ := Option.bind_eq_some_iff.1 hj
      exact hwalk.step hnext hready

section Graph

variable {registry : Registry} {config : RuntimeConfig} {graph : BoundGraph} {program : Program}
  {object : Object}

theorem runEvent_keeps {event : String} {args : EventArgs}
    (hprogram : graph.blueprint.events.find? event = some program) :
    (runEvent registry config graph object event args).ending.Keeps program
      config.stepBudget := by
  rw [runEvent_eq hprogram]
  exact execute_keeps rfl fun i hentry _ => .entry hentry

theorem resume_keeps {c : Continuation}
    (hprogram : graph.blueprint.events.find? c.frame.event = some program)
    (hwalk : program.Walk c.frame.steps c.node) :
    (resume registry config graph object c).ending.Keeps program config.stepBudget := by
  rw [resume_eq hprogram]
  refine execute_keeps rfl fun j hj hready => ?_
  obtain ⟨s, -, hnext⟩ := Option.bind_eq_some_iff.1 hj
  exact hwalk.step hnext hready

end Graph

end Nodeflow
