import Mathlib.Algebra.BigOperators.Group.Finset.Basic
import Mathlib.Algebra.Order.BigOperators.Group.Finset
import Mathlib.Logic.Relation
import Nodeflow.Program.Reach

/-!
# What the stack search finds

The search for reachable nodes takes an index off its stack at every turn, and may put more
there than it takes.  Whichever index a turn takes, the search ends, and it misses none and
finds no others: what it has seen by then are the seeds, with a node all the nodes that its
outputs lead to, and nothing that a seed does not lead to.
-/

namespace Nodeflow

def Leads (nodes : List ProgramNode) (i j : Nat) : Prop :=
  j ∈ targetsAt nodes i

theorem leads_iff_successor {nodes : List ProgramNode} {i j : Nat} :
    Leads nodes i j ↔ ∃ node, nodes[i]? = some (.ready node) ∧ some j ∈ node.successors := by
  rw [Leads, targetsAt]
  cases nodes[i]? with
  | none => simp
  | some n => cases n <;> simp [ProgramNode.targets]

theorem targetsAt_of_length_le {nodes : List ProgramNode} {i : Nat} (hout : nodes.length ≤ i) :
    targetsAt nodes i = [] := by
  simp only [targetsAt, List.getElem?_eq_none hout]

/-! ## Turns -/

structure Search where
  waiting : Multiset Nat
  seen : Finset Nat

namespace Search

def start (seeds : List Nat) : Search :=
  ⟨seeds, ∅⟩

/-- A turn takes an index off the stack, wherever it is there.  An index not seen before has
been seen from then on, and all that it leads to comes to the stack. -/
inductive Turn (nodes : List ProgramNode) : Search → Search → Prop
  | again {index : Nat} {waiting : Multiset Nat} {seen : Finset Nat} (hseen : index ∈ seen) :
      Turn nodes ⟨index ::ₘ waiting, seen⟩ ⟨waiting, seen⟩
  | visit {index : Nat} {waiting : Multiset Nat} {seen : Finset Nat} (hnew : index ∉ seen) :
      Turn nodes ⟨index ::ₘ waiting, seen⟩ ⟨targetsAt nodes index + waiting, insert index seen⟩

inductive Turns (nodes : List ProgramNode) : Nat → Search → Search → Prop
  | refl {search : Search} : Turns nodes 0 search search
  | next {n : Nat} {search between last : Search} (hturn : Turn nodes search between)
      (hturns : Turns nodes n between last) : Turns nodes (n + 1) search last

variable {nodes : List ProgramNode} {seeds : List Nat} {n : Nat} {search : Search}

theorem Turn.exists_of_waiting (h : search.waiting ≠ 0) : ∃ next, Turn nodes search next := by
  obtain ⟨waiting, seen⟩ := search
  obtain ⟨index, hindex⟩ := Multiset.exists_mem_of_ne_zero h
  obtain ⟨rest, rfl⟩ := Multiset.exists_cons_of_mem hindex
  by_cases hseen : index ∈ seen
  · exact ⟨_, .again hseen⟩
  · exact ⟨_, .visit hseen⟩

theorem turns_spread (nodes : List ProgramNode) (stack seen : List Nat) :
    ∃ n, Turns nodes n ⟨stack, seen.toFinset⟩ ⟨0, (spread nodes stack seen).toFinset⟩ := by
  fun_induction spread nodes stack seen with
  | case1 seen => exact ⟨0, .refl⟩
  | case2 seen index stack hseen ih =>
      obtain ⟨n, hturns⟩ := ih
      rw [← Multiset.cons_coe]
      exact ⟨n + 1, .next (.again (List.mem_toFinset.2 hseen)) hturns⟩
  | case3 seen index stack hnew hin ih =>
      obtain ⟨n, hturns⟩ := ih
      rw [List.toFinset_cons, ← Multiset.coe_add] at hturns
      rw [← Multiset.cons_coe]
      exact ⟨n + 1, .next (.visit fun h => hnew (List.mem_toFinset.1 h)) hturns⟩
  | case4 seen index stack hnew hout ih =>
      have hnone : (targetsAt nodes index + stack : Multiset Nat) = stack := by
        rw [targetsAt_of_length_le (Nat.le_of_not_lt hout), Multiset.coe_nil, zero_add]
      obtain ⟨n, hturns⟩ := ih
      rw [List.toFinset_cons, ← hnone] at hturns
      rw [← Multiset.cons_coe]
      exact ⟨n + 1, .next (.visit fun h => hnew (List.mem_toFinset.1 h)) hturns⟩

/-! ## What is so at every turn -/

/-- What holds after a number of turns of the search from some seeds. -/
structure Explored (nodes : List ProgramNode) (seeds : List Nat) (n : Nat) (search : Search) :
    Prop where
  accounts : search.waiting.card + n =
    seeds.length + ∑ i ∈ search.seen, (targetsAt nodes i).length
  kept : ∀ i ∈ seeds, i ∈ search.seen ∨ i ∈ search.waiting
  closed : ∀ i ∈ search.seen, ∀ j, Leads nodes i j → j ∈ search.seen ∨ j ∈ search.waiting
  led : ∀ i, i ∈ search.seen ∨ i ∈ search.waiting →
    ∃ s ∈ seeds, Relation.ReflTransGen (Leads nodes) s i

namespace Explored

theorem start (nodes : List ProgramNode) (seeds : List Nat) :
    Explored nodes seeds 0 (.start seeds) where
  accounts := by simp [Search.start]
  kept i hi := .inr hi
  closed i hi := absurd hi (Finset.notMem_empty i)
  led i hi := ⟨i, hi.resolve_left (Finset.notMem_empty i), .refl⟩

theorem turn {next : Search} (h : Explored nodes seeds n search)
    (hturn : Turn nodes search next) : Explored nodes seeds (n + 1) next := by
  cases hturn with
  | @again index waiting seen hseen =>
      have hstill : ∀ i, i ∈ seen ∨ i ∈ index ::ₘ waiting → i ∈ seen ∨ i ∈ waiting := by
        rintro i (hi | hi)
        · exact .inl hi
        · rcases Multiset.mem_cons.1 hi with rfl | hi
          · exact .inl hseen
          · exact .inr hi
      constructor
      · have haccounts := h.accounts
        simp only [Multiset.card_cons] at haccounts ⊢
        omega
      · exact fun i hi => hstill i (h.kept i hi)
      · exact fun i hi j hj => hstill j (h.closed i hi j hj)
      · exact fun i hi => h.led i (hi.imp_right Multiset.mem_cons_of_mem)
  | @visit index waiting seen hnew =>
      have hstill : ∀ i, i ∈ seen ∨ i ∈ index ::ₘ waiting →
          i ∈ insert index seen ∨ i ∈ (targetsAt nodes index + waiting : Multiset Nat) := by
        rintro i (hi | hi)
        · exact .inl (Finset.mem_insert_of_mem hi)
        · rcases Multiset.mem_cons.1 hi with rfl | hi
          · exact .inl (Finset.mem_insert_self i seen)
          · exact .inr (Multiset.mem_add.2 (.inr hi))
      obtain ⟨s, hs, hreach⟩ := h.led index (.inr (Multiset.mem_cons_self index waiting))
      constructor
      · have haccounts := h.accounts
        simp only [Multiset.card_cons, Multiset.card_add, Multiset.coe_card,
          Finset.sum_insert hnew] at haccounts ⊢
        omega
      · exact fun i hi => hstill i (h.kept i hi)
      · intro i hi j hj
        rcases Finset.mem_insert.1 hi with rfl | hi
        · exact .inr (Multiset.mem_add.2 (.inl hj))
        · exact hstill j (h.closed i hi j hj)
      · rintro i (hi | hi)
        · rcases Finset.mem_insert.1 hi with rfl | hi
          · exact ⟨s, hs, hreach⟩
          · exact h.led i (.inl hi)
        · rcases Multiset.mem_add.1 hi with hleads | hi
          · exact ⟨s, hs, hreach.tail hleads⟩
          · exact h.led i (.inr (Multiset.mem_cons_of_mem hi))

theorem turns {m : Nat} {last : Search} (h : Explored nodes seeds n search)
    (hturns : Turns nodes m search last) : Explored nodes seeds (n + m) last := by
  induction hturns generalizing n with
  | refl => exact h
  | @next m _ _ _ hturn _ ih =>
      rw [Nat.add_comm m 1, ← Nat.add_assoc]
      exact ih (h.turn hturn)

theorem of_turns (h : Turns nodes n (.start seeds) search) : Explored nodes seeds n search := by
  simpa only [zero_add] using (start nodes seeds).turns h

theorem mem_seen_iff (h : Explored nodes seeds n search) (hend : search.waiting = 0) {i : Nat} :
    i ∈ search.seen ↔ ∃ s ∈ seeds, Relation.ReflTransGen (Leads nodes) s i := by
  refine ⟨fun hi => h.led i (.inl hi), ?_⟩
  rintro ⟨s, hs, hreach⟩
  have hseen : ∀ j, j ∈ search.seen ∨ j ∈ search.waiting → j ∈ search.seen := by
    simp [hend]
  induction hreach with
  | refl => exact hseen s (h.kept s hs)
  | @tail i j _ hleads ih => exact hseen j (h.closed i ih j hleads)

end Explored

end Search

/-! ## What is found -/

theorem nodup_spread {nodes : List ProgramNode} {stack seen : List Nat} (h : seen.Nodup) :
    (spread nodes stack seen).Nodup := by
  fun_induction spread nodes stack seen with
  | case1 seen => exact h
  | case2 seen index stack hseen ih => exact ih h
  | case3 seen index stack hseen hin ih => exact ih (List.nodup_cons.2 ⟨hseen, h⟩)
  | case4 seen index stack hseen hout ih => exact ih (List.nodup_cons.2 ⟨hseen, h⟩)

theorem nodup_reachable (nodes : List ProgramNode) (seeds : List Nat) :
    (reachable nodes seeds).Nodup :=
  nodup_spread .nil

theorem mem_reachable_iff {nodes : List ProgramNode} {seeds : List Nat} {i : Nat} :
    i ∈ reachable nodes seeds ↔ ∃ s ∈ seeds, Relation.ReflTransGen (Leads nodes) s i := by
  obtain ⟨n, hturns⟩ := Search.turns_spread nodes seeds []
  rw [← (Search.Explored.of_turns hturns).mem_seen_iff rfl]
  exact List.mem_toFinset.symm

theorem mem_reachable_of_leads {nodes : List ProgramNode} {seeds : List Nat} {s i : Nat}
    (hs : s ∈ seeds) (h : Relation.ReflTransGen (Leads nodes) s i) : i ∈ reachable nodes seeds :=
  mem_reachable_iff.2 ⟨s, hs, h⟩

/-! ## How long a search is -/

theorem sum_targetsAt_range (nodes : List ProgramNode) :
    ∑ i ∈ Finset.range nodes.length, (targetsAt nodes i).length =
      (nodes.flatMap ProgramNode.targets).length := by
  induction nodes with
  | nil => rfl
  | cons node nodes ih =>
      rw [List.length_cons, Finset.sum_range_succ', List.flatMap_cons, List.length_append, ← ih,
        Nat.add_comm]
      rfl

theorem sum_targetsAt_le (nodes : List ProgramNode) (found : Finset Nat) :
    ∑ i ∈ found, (targetsAt nodes i).length ≤ (nodes.flatMap ProgramNode.targets).length := by
  rw [← sum_targetsAt_range]
  refine Finset.sum_le_sum_of_ne_zero fun i _ htargets => Finset.mem_range.2 ?_
  by_contra hout
  exact htargets (by rw [targetsAt_of_length_le (Nat.le_of_not_lt hout), List.length_nil])

namespace Search

/-- The number of turns that the search from some seeds takes: one for every seed, and one for
every output of a found node that leads somewhere. -/
def duration (nodes : List ProgramNode) (seeds : List Nat) : Nat :=
  seeds.length + ∑ i ∈ (reachable nodes seeds).toFinset, (targetsAt nodes i).length

theorem duration_le (nodes : List ProgramNode) (seeds : List Nat) :
    duration nodes seeds ≤ seeds.length + (nodes.flatMap ProgramNode.targets).length :=
  Nat.add_le_add_left (sum_targetsAt_le nodes _) _

namespace Explored

variable {nodes : List ProgramNode} {seeds : List Nat} {n : Nat} {search : Search}

theorem seen_subset (h : Explored nodes seeds n search) :
    search.seen ⊆ (reachable nodes seeds).toFinset := by
  intro i hi
  exact List.mem_toFinset.2 (mem_reachable_iff.2 (h.led i (.inl hi)))

theorem seen_eq (h : Explored nodes seeds n search) (hend : search.waiting = 0) :
    search.seen = (reachable nodes seeds).toFinset := by
  ext i
  rw [h.mem_seen_iff hend, List.mem_toFinset, mem_reachable_iff]

theorem card_add_le_duration (h : Explored nodes seeds n search) :
    search.waiting.card + n ≤ duration nodes seeds := by
  rw [h.accounts, duration]
  exact Nat.add_le_add_left (Finset.sum_le_sum_of_subset h.seen_subset) _

theorem eq_duration (h : Explored nodes seeds n search) (hend : search.waiting = 0) :
    n = duration nodes seeds := by
  have haccounts := h.accounts
  rwa [hend, Multiset.card_zero, zero_add, h.seen_eq hend] at haccounts

end Explored

theorem turns_reachable (nodes : List ProgramNode) (seeds : List Nat) :
    Turns nodes (duration nodes seeds) (.start seeds) ⟨0, (reachable nodes seeds).toFinset⟩ := by
  obtain ⟨n, hturns⟩ := turns_spread nodes seeds []
  rw [← (Explored.of_turns hturns).eq_duration rfl]
  exact hturns

end Search

/--
The search is exact and ends.  For any list of nodes and any seeds, what is found, each index
once, are the indices that some seed leads to, over any number of successors of ready nodes.
It takes a fixed number of turns, no more than there are seeds and placed links, whichever
index of the stack each turn takes: no search goes on for longer, one that has gone on for as
long has an empty stack and has seen what is found, and any other has a next turn.
-/
theorem reachable_exact (nodes : List ProgramNode) (seeds : List Nat) :
    let found := reachable nodes seeds
    let turns := Search.duration nodes seeds
    (∀ i, i ∈ found ↔ ∃ s ∈ seeds, Relation.ReflTransGen (fun s d =>
      ∃ node, nodes[s]? = some (.ready node) ∧ some d ∈ node.successors) s i) ∧
    found.Nodup ∧
    turns ≤ seeds.length + (nodes.flatMap ProgramNode.targets).length ∧
    Search.Turns nodes turns (.start seeds) ⟨0, found.toFinset⟩ ∧
    ∀ n search, Search.Turns nodes n (.start seeds) search →
      n ≤ turns ∧ (n = turns → search = ⟨0, found.toFinset⟩) ∧
      (n < turns → ∃ next, Search.Turn nodes search next) := by
  intro found turns
  have hleads : Leads nodes = fun s d =>
      ∃ node, nodes[s]? = some (.ready node) ∧ some d ∈ node.successors := by
    funext s d
    exact propext leads_iff_successor
  refine ⟨fun i => ?_, nodup_reachable nodes seeds, Search.duration_le nodes seeds,
    Search.turns_reachable nodes seeds, fun n search hturns => ?_⟩
  · rw [← hleads]
    exact mem_reachable_iff
  · have hexplored := Search.Explored.of_turns hturns
    have hle : search.waiting.card + n ≤ turns := hexplored.card_add_le_duration
    refine ⟨Nat.le_of_add_left_le hle, fun hn => ?_, fun hn => ?_⟩
    · have hend : search.waiting = 0 := Multiset.card_eq_zero.1 (by omega)
      rw [← hexplored.seen_eq hend, ← hend]
    · refine Search.Turn.exists_of_waiting fun hend => ?_
      exact hn.ne (hexplored.eq_duration hend)

example :
    reachable [.ready ⟨0, [], [some 1, some 2]⟩, .ready ⟨0, [], [some 1, some 0]⟩, .inert,
      .ready ⟨0, [], [some 0]⟩] [0, 7, 0] = [7, 2, 1, 0] := by
  cbv

end Nodeflow
