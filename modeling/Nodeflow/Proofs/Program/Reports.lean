import Nodeflow.Program.Build

/-!
# What reports are about

A report on an event is about its start, about a node or about a link.  A node that cannot be
bound is reported once, under its index.
-/

namespace Nodeflow

inductive DiagnosticReason.Subject where
  | start
  | node
  | link
  deriving DecidableEq

def DiagnosticReason.subject : DiagnosticReason → Subject
  | .startNodeOutOfRange _ | .startWithoutGraph _ => .start
  | .linkOutOfRange _ | .slotOutOfRange _ _ | .slotAlreadyLinked _ => .link
  | .unknownCapability _ | .paramCountMismatch _ _ | .literalTypeMismatch _ _
  | .expressionParse _ | .unreachableThroughInert => .node

/-! ## Nodes that cannot be bound -/

section Bind

variable {config : RuntimeConfig}

theorem bindParam_subject {spec : ParamSpec} {param : Param} {reason : DiagnosticReason}
    (h : bindParam config spec param = .error reason) : reason.subject = .node := by
  have hparsed : ∀ source, bindParam.parsed config spec source = .error reason →
      reason.subject = .node := by
    intro source h
    unfold bindParam.parsed at h
    split at h
    · contradiction
    · cases h
      rfl
  have hcoerced : ∀ value, bindParam.coerced spec value = .error reason →
      reason.subject = .node := by
    intro value h
    unfold bindParam.coerced at h
    split at h
    · contradiction
    · cases h
      rfl
  unfold bindParam at h
  split at h
  · exact hparsed _ h
  · split at h
    · exact hcoerced _ h
    · exact hparsed _ h
  · exact hcoerced _ h

theorem bindParams_subject {specs : List ParamSpec} {params : List Param}
    {reason : DiagnosticReason} (h : bindParams config specs params = .error reason) :
    reason.subject = .node := by
  induction specs generalizing params with
  | nil => contradiction
  | cons spec specs ih =>
      cases params with
      | nil => contradiction
      | cons param params =>
          simp only [bindParams] at h
          cases hfirst : bindParam config spec param with
          | error reason' =>
              simp only [hfirst, bind, Except.bind] at h
              cases h
              exact bindParam_subject hfirst
          | ok first =>
              cases hrest : bindParams config specs params with
              | error reason' =>
                  simp only [hfirst, hrest, bind, Except.bind] at h
                  cases h
                  exact ih hrest
              | ok rest => simp [hfirst, hrest, bind, Except.bind, pure, Except.pure] at h

theorem buildNode_subject {registry : Registry} {node : Node} {reason : DiagnosticReason}
    (h : buildNode registry config node = .error reason) : reason.subject = .node := by
  unfold buildNode at h
  split at h
  · cases h
    rfl
  · split at h
    · cases h
      rfl
    · rename_i capability _
      simp only at h
      split at h
      · cases hbound : bindParams config capability.descriptor.params node.params with
        | error reason' =>
            simp only [hbound, bind, Except.bind] at h
            cases h
            exact bindParams_subject hbound
        | ok bound => simp [hbound, bind, Except.bind, pure, Except.pure] at h
      · cases h
        rfl

end Bind

theorem nodeDiagnostics_subject {registry : Registry} {config : RuntimeConfig} {event : String}
    {index : Nat} {nodes : List Node} {r : Diagnostic}
    (h : r ∈ nodeDiagnostics event index (nodes.map (buildNode registry config))) :
    r.event = event ∧ r.reason.subject = .node := by
  induction nodes generalizing index with
  | nil => contradiction
  | cons node rest ih =>
      rw [List.map_cons] at h
      cases hbound : buildNode registry config node with
      | ok ready =>
          rw [hbound, nodeDiagnostics] at h
          exact ih h
      | error reason =>
          rw [hbound, nodeDiagnostics] at h
          rcases List.mem_cons.1 h with rfl | h
          · exact ⟨rfl, buildNode_subject hbound⟩
          · exact ih h

def Diagnostic.concerns (event : String) (i : Nat) (r : Diagnostic) : Bool :=
  r.event == event && r.node == some i && r.reason.subject == .node

theorem Diagnostic.concerns_iff {event : String} {i : Nat} {r : Diagnostic} :
    r.concerns event i = true ↔
      r.event = event ∧ r.node = some i ∧ r.reason.subject = .node := by
  simp only [concerns, Bool.and_eq_true, beq_iff_eq, and_assoc]

theorem filter_concerns_eq_nil {reports : List Diagnostic}
    (h : ∀ r ∈ reports, r.reason.subject ≠ .node) (event : String) (i : Nat) :
    reports.filter (Diagnostic.concerns event i) = [] :=
  List.filter_eq_nil_iff.2 fun r hr hconcerns => h r hr (Diagnostic.concerns_iff.1 hconcerns).2.2

theorem node_of_mem_nodeDiagnostics {event : String} {index : Nat}
    {results : List (Except DiagnosticReason ReadyNode)} {r : Diagnostic}
    (h : r ∈ nodeDiagnostics event index results) : ∃ i, index ≤ i ∧ r.node = some i := by
  induction results generalizing index with
  | nil => contradiction
  | cons result rest ih =>
      cases result with
      | ok ready =>
          obtain ⟨i, hi, hnode⟩ := ih h
          exact ⟨i, Nat.le_of_succ_le hi, hnode⟩
      | error reason =>
          rcases List.mem_cons.1 h with rfl | h
          · exact ⟨index, Nat.le_refl index, rfl⟩
          · obtain ⟨i, hi, hnode⟩ := ih h
            exact ⟨i, Nat.le_of_succ_le hi, hnode⟩

theorem filter_nodeDiagnostics (registry : Registry) (config : RuntimeConfig) (event : String)
    (index : Nat) (nodes : List Node) (i : Nat) :
    (nodeDiagnostics event index (nodes.map (buildNode registry config))).filter
        (Diagnostic.concerns event (index + i)) =
      match (nodes.map (buildNode registry config))[i]? with
      | some (.error reason) => [⟨event, some (index + i), reason⟩]
      | _ => [] := by
  induction nodes generalizing index i with
  | nil => rfl
  | cons node rest ih =>
      simp only [List.map_cons]
      cases i with
      | zero =>
          have hlater : (nodeDiagnostics event (index + 1)
              (rest.map (buildNode registry config))).filter
                (Diagnostic.concerns event index) = [] := by
            refine List.filter_eq_nil_iff.2 fun r hr hconcerns => ?_
            obtain ⟨j, hj, hnode⟩ := node_of_mem_nodeDiagnostics hr
            have hindex : j = index :=
              Option.some.inj (hnode.symm.trans (Diagnostic.concerns_iff.1 hconcerns).2.1)
            omega
          cases hbound : buildNode registry config node with
          | ok ready => simpa [nodeDiagnostics] using hlater
          | error reason =>
              have hhead : Diagnostic.concerns event index ⟨event, some index, reason⟩ = true :=
                Diagnostic.concerns_iff.2 ⟨rfl, rfl, buildNode_subject hbound⟩
              simp [nodeDiagnostics, hhead, hlater]
      | succ i =>
          have hrest := ih (index + 1) i
          rw [show index + 1 + i = index + (i + 1) by omega] at hrest
          rw [List.getElem?_cons_succ, ← hrest]
          cases hbound : buildNode registry config node with
          | ok ready => rfl
          | error reason =>
              have hhead : Diagnostic.concerns event (index + (i + 1))
                  ⟨event, some index, reason⟩ = false := by
                simp [Diagnostic.concerns]
              rw [nodeDiagnostics, List.filter_cons_of_neg (by simp [hhead])]

theorem startDiagnostics_subject {event : String} {graph : EventGraph} {start : Option Nat}
    {r : Diagnostic} (h : r ∈ startDiagnostics event graph start) :
    r.event = event ∧ r.reason.subject = .start := by
  unfold startDiagnostics at h
  split at h
  · split at h
    · rw [List.mem_singleton.1 h]
      exact ⟨rfl, rfl⟩
    · contradiction
  · contradiction

end Nodeflow
