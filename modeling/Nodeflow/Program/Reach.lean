import Nodeflow.Program.Basic

/-!
# Reachable nodes

The nodes a run may come to from some given nodes, found with a stack of nodes still to
be looked at.
-/

namespace Nodeflow

def targetsAt (nodes : List ProgramNode) (index : Nat) : List Nat :=
  match nodes[index]? with
  | some node => node.targets
  | none => []

def unseen (nodes : List ProgramNode) (seen : List Nat) : List Nat :=
  (List.range nodes.length).filter fun i => !seen.contains i

theorem unseen_cons (nodes : List ProgramNode) (seen : List Nat) (index : Nat) :
    unseen nodes (index :: seen) = (unseen nodes seen).filter (· != index) := by
  simp only [unseen, List.filter_filter]
  congr 1
  funext i
  simp [bne, Bool.beq_eq_decide_eq]

theorem length_unseen_cons_lt {nodes : List ProgramNode} {seen : List Nat} {index : Nat}
    (hnew : ¬index ∈ seen) (hin : index < nodes.length) :
    (unseen nodes (index :: seen)).length < (unseen nodes seen).length := by
  rw [unseen_cons]
  exact List.length_filter_lt_length_iff_exists.2 ⟨index, by simp [unseen, hin, hnew], by simp⟩

theorem length_unseen_cons_le (nodes : List ProgramNode) (seen : List Nat) (index : Nat) :
    (unseen nodes (index :: seen)).length ≤ (unseen nodes seen).length := by
  rw [unseen_cons]
  exact List.length_filter_le _ _

/-- Works a stack off.  Each step takes an index from the stack, and puts others there
only when it has seen one more node of the list. -/
def spread (nodes : List ProgramNode) (stack seen : List Nat) : List Nat :=
  match stack with
  | [] => seen
  | index :: stack =>
    if index ∈ seen then spread nodes stack seen
    else if index < nodes.length then
      spread nodes (targetsAt nodes index ++ stack) (index :: seen)
    else spread nodes stack (index :: seen)
termination_by ((unseen nodes seen).length, stack.length)
decreasing_by
  · exact Prod.Lex.right _ (by simp)
  · rename_i hnew hin
    exact Prod.Lex.left _ _ (length_unseen_cons_lt hnew hin)
  · have := length_unseen_cons_le nodes seen index
    rcases Nat.lt_or_eq_of_le this with h | h
    · exact Prod.Lex.left _ _ h
    · rw [h]
      exact Prod.Lex.right _ (by simp)

def reachable (nodes : List ProgramNode) (seeds : List Nat) : List Nat :=
  spread nodes seeds []

end Nodeflow
