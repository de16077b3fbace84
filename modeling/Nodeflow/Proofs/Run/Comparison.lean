import Mathlib
import Nodeflow.Capability.Builtin
import Nodeflow.Program.Build
import Nodeflow.Proofs.Capability.Faults
import Nodeflow.Proofs.Number.Widening
import Nodeflow.Proofs.Run.Execution

/-!
# Comparing integers

A comparison works on doubles, so integers are widened on the way in.  Their order is
never turned round by that, and it is kept exactly up to 53 bits; beyond, neighbours may
be taken for equal.
-/

namespace Nodeflow

/-! ## The order of widened integers -/

theorem compare_place_widen (a b : Int64) :
    compare (place (widen a)) (place (widen b)) = compare a.toInt b.toInt ∨
      compare (place (widen a)) (place (widen b)) = .eq := by
  rcases lt_trichotomy a.toInt b.toInt with h | h | h
  · rcases (place_widen_mono h.le).lt_or_eq with hlt | heq
    · exact .inl (by rw [compare_lt_iff_lt.2 h, compare_lt_iff_lt.2 hlt])
    · exact .inr (compare_eq_iff_eq.2 heq)
  · exact .inr (compare_eq_iff_eq.2 (by rw [Int64.toInt_inj.1 h]))
  · rcases (place_widen_mono h.le).lt_or_eq with hlt | heq
    · exact .inl (by rw [compare_gt_iff_gt.2 h, compare_gt_iff_gt.2 hlt])
    · exact .inr (compare_eq_iff_eq.2 heq.symm)

theorem compare_place_widen_of_le {a b : Int64} (ha : a.toInt.natAbs ≤ 2 ^ 53)
    (hb : b.toInt.natAbs ≤ 2 ^ 53) :
    compare (place (widen a)) (place (widen b)) = compare a.toInt b.toInt := by
  rcases compare_place_widen a b with h | h
  · exact h
  · have hexact : exactDouble? (widen a) = exactDouble? (widen b) := by
      rw [exactDouble?_of_number (isNaN_widen a), exactDouble?_of_number (isNaN_widen b),
        compare_eq_iff_eq.1 h]
    rw [exactDouble?_widen ha, exactDouble?_widen hb, Option.some.injEq,
      ExactNumber.finite.injEq] at hexact
    have heq : a.toInt = b.toInt := by exact_mod_cast hexact
    rw [h, compare_eq_iff_eq.2 heq]

example :
    compare (place (widen 9007199254740992)) (place (widen 9007199254740993)) = .eq := by
  decide +kernel

/-! ## The slot a comparison takes -/

namespace Builtin

def orderSlot : Ordering → Nat
  | .lt => 0
  | .eq => 1
  | .gt => 2

theorem threeWay_slot {x y : Float} (hx : x.isNaN = false) (hy : y.isNaN = false) :
    compare.descriptor.selectSlot (threeWay x y) =
      some (orderSlot (Ord.compare (place x) (place y))) := by
  have hgt : x > y ↔ place y < place x := lt_iff_place hy hx
  rcases lt_trichotomy (place x) (place y) with h | h | h
  · rw [threeWay, if_pos ((lt_iff_place hx hy).2 h), compare_lt_iff_lt.2 h]
    rfl
  · have hnlt : ¬x < y := by
      rw [lt_iff_place hx hy, h]
      exact lt_irrefl _
    rw [threeWay, if_neg hnlt, if_pos ((beq_iff_place hx hy).2 h), compare_eq_iff_eq.2 h]
    rfl
  · have hnlt : ¬x < y := by
      rw [lt_iff_place hx hy]
      exact h.not_gt
    have hne : ¬(x == y) = true := by
      rw [beq_iff_place hx hy]
      exact h.ne'
    rw [threeWay, if_neg hnlt, if_neg hne, if_pos (hgt.2 h), compare_gt_iff_gt.2 h]
    rfl

end Builtin

/-! ## The node -/

section Node

variable {config : RuntimeConfig}

def BoundParam.Given (config : RuntimeConfig) (env : Environment) (i : Int64)
    (param : BoundParam) : Prop :=
  (∃ name, bindParam config ⟨name, .float⟩ (.literal (.int i)) = .ok param) ∨
    ∃ e, param = .expression e ∧ e.value config env = .ok (.int i)

theorem BoundParam.Given.value {env : Environment} {i : Int64} {param : BoundParam}
    (h : param.Given config env i) (name : String) :
    param.value config env ⟨name, .float⟩ = .ok (.float (widen i)) := by
  rcases h with ⟨bound, hbound⟩ | ⟨e, rfl, he⟩
  · cases hbound
    rfl
  · rw [BoundParam.value, he]
    rfl

variable {index : Nat} {node : ReadyNode} {store : Store} {scope : LocalScope}
  {p q : BoundParam} {a b : Int64}

theorem runNode_compare (hparams : node.params = [p, q])
    (hp : p.Given config ⟨scope, store.vars, some store.object.fields⟩ a)
    (hq : q.Given config ⟨scope, store.vars, some store.object.fields⟩ b) :
    (runNode config index node Builtin.compare store scope).verdict =
      .advance (some (Builtin.orderSlot (compare (place (widen a)) (place (widen b))))) := by
  have hargs : arguments config ⟨scope, store.vars, some store.object.fields⟩
      Builtin.compare.descriptor.params node.params =
        .ok [("a", .float (widen a)), ("b", .float (widen b))] := by
    simp only [Builtin.compare, hparams, arguments, hp.value, hq.value, Except.mapError, bind,
      Except.bind, pure, Except.pure]
  simp only [runNode, hargs, callNode_eq]
  rw [← Builtin.threeWay_slot (isNaN_widen a) (isNaN_widen b)]
  rfl

/-- Integers of up to 53 bits are compared exactly. -/
theorem runNode_compare_of_le (ha : a.toInt.natAbs ≤ 2 ^ 53) (hb : b.toInt.natAbs ≤ 2 ^ 53)
    (hparams : node.params = [p, q])
    (hp : p.Given config ⟨scope, store.vars, some store.object.fields⟩ a)
    (hq : q.Given config ⟨scope, store.vars, some store.object.fields⟩ b) :
    (runNode config index node Builtin.compare store scope).verdict =
      .advance (some (Builtin.orderSlot (compare a.toInt b.toInt))) := by
  rw [runNode_compare hparams hp hq, compare_place_widen_of_le ha hb]

theorem runNode_compare_or_equal (hparams : node.params = [p, q])
    (hp : p.Given config ⟨scope, store.vars, some store.object.fields⟩ a)
    (hq : q.Given config ⟨scope, store.vars, some store.object.fields⟩ b) :
    (runNode config index node Builtin.compare store scope).verdict =
        .advance (some (Builtin.orderSlot (compare a.toInt b.toInt))) ∨
      (runNode config index node Builtin.compare store scope).verdict =
        .advance (some (Builtin.orderSlot .eq)) := by
  rw [runNode_compare hparams hp hq]
  rcases compare_place_widen a b with h | h
  · exact .inl (by rw [h])
  · exact .inr (by rw [h])

end Node

end Nodeflow
