import Mathlib.Data.List.Forall2
import Nodeflow.Proofs.Program.Wiring

/-!
# Types of bound parameters

A node that could be bound has a parameter for each one its capability declares, and those
that are literals have the declared type.  An expression gets its type only when it is
evaluated.
-/

namespace Nodeflow

inductive ParamType.Holds : ParamType → Value → Prop
  | int (i : Int64) : Holds .int (.int i)
  | float (x : Float) : Holds .float (.float x)
  | bool (b : Bool) : Holds .bool (.bool b)
  | text (s : String) : Holds .text (.text s)
  | list (items : List Value) : Holds .list (.list items)
  | tuple (items : List Value) : Holds (.tuple items.length) (.list items)
  | expression (v : Value) : Holds .expression v

theorem ParamType.holds_of_coerce {type : ParamType} {v v' : Value}
    (h : type.coerce v = .ok v') : type.Holds v' := by
  unfold coerce at h
  split at h
  case h_1 => exact Except.ok.inj h ▸ .expression _
  case h_2 => exact Except.ok.inj h ▸ .int _
  case h_3 => exact Except.ok.inj h ▸ .float _
  case h_4 => exact Except.ok.inj h ▸ .float _
  case h_5 => exact Except.ok.inj h ▸ .bool _
  case h_6 => exact Except.ok.inj h ▸ .text _
  case h_7 => exact Except.ok.inj h ▸ .list _
  case h_8 size items =>
    split at h
    · rename_i hsize
      subst hsize
      exact Except.ok.inj h ▸ .tuple items
    · contradiction
  case h_9 => contradiction

def ParamSpec.Admits (spec : ParamSpec) : BoundParam → Prop
  | .literal v => spec.type.Holds v
  | .expression _ => True

/-! ## Binding -/

section Bind

variable {config : RuntimeConfig}

theorem coerced_admits {spec : ParamSpec} {value : Value} {bound : BoundParam}
    (h : bindParam.coerced spec value = .ok bound) : spec.Admits bound := by
  unfold bindParam.coerced at h
  split at h
  · rename_i v hv
    cases h
    exact ParamType.holds_of_coerce hv
  · contradiction

theorem parsed_admits {spec : ParamSpec} {source : String} {bound : BoundParam}
    (h : bindParam.parsed config spec source = .ok bound) : spec.Admits bound := by
  unfold bindParam.parsed at h
  split at h
  · cases h
    trivial
  · contradiction

theorem bindParam_admits {spec : ParamSpec} {param : Param} {bound : BoundParam}
    (h : bindParam config spec param = .ok bound) : spec.Admits bound := by
  unfold bindParam at h
  split at h
  · exact parsed_admits h
  · split at h
    · exact coerced_admits h
    · exact parsed_admits h
  · exact coerced_admits h

theorem bindParams_admits {specs : List ParamSpec} {params : List Param}
    {bound : List BoundParam} (hlength : params.length = specs.length)
    (h : bindParams config specs params = .ok bound) :
    List.Forall₂ ParamSpec.Admits specs bound := by
  induction specs generalizing params bound with
  | nil =>
      cases h
      exact .nil
  | cons spec specs ih =>
      cases params with
      | nil => contradiction
      | cons param params =>
          simp only [bindParams] at h
          cases hfirst : bindParam config spec param with
          | error reason => simp [hfirst, bind, Except.bind] at h
          | ok first =>
              cases hrest : bindParams config specs params with
              | error reason => simp [hfirst, hrest, bind, Except.bind] at h
              | ok rest =>
                  simp only [hfirst, hrest, bind, Except.bind, pure, Except.pure] at h
                  cases h
                  exact .cons (bindParam_admits hfirst) (ih (Nat.succ.inj hlength) hrest)

end Bind

/-! ## Nodes and programs -/

def Registry.Admits (registry : Registry) (id : UInt32) (params : List BoundParam) : Prop :=
  ∃ capability, registry.get? id = some capability ∧
    List.Forall₂ ParamSpec.Admits capability.descriptor.params params

theorem buildNode_admits {registry : Registry} {config : RuntimeConfig} {node : Node}
    {ready : ReadyNode} (h : buildNode registry config node = .ok ready) :
    registry.Admits ready.capability ready.params := by
  unfold buildNode at h
  split at h
  · contradiction
  · rename_i id _
    split at h
    · contradiction
    · rename_i capability hcapability
      simp only at h
      split at h
      · rename_i hlength
        cases hbound : bindParams config capability.descriptor.params node.params with
        | error reason => simp [hbound, bind, Except.bind] at h
        | ok bound =>
            simp only [hbound, bind, Except.bind, pure, Except.pure] at h
            cases h
            exact ⟨capability, hcapability, bindParams_admits hlength hbound⟩
      · contradiction

def Program.Typed (registry : Registry) (program : Program) : Prop :=
  ∀ i node, program.node? i = some node → registry.Admits node.capability node.params

theorem buildEvent_typed (registry : Registry) (config : RuntimeConfig) (event : String)
    (graph : EventGraph) (start : Option Nat) :
    (buildEvent registry config event graph start).1.Typed registry := by
  intro i node hnode
  obtain ⟨n, hn, hready⟩ := Option.bind_eq_some_iff.1 (ready?_of_node?_buildEvent hnode)
  have hbinding := wire_binding?_getElem? registry config event graph i
  rw [hn, Option.map_some, eq_comm, Option.map_eq_some_iff] at hbinding
  obtain ⟨source, -, hbinding⟩ := hbinding
  simp only [ProgramNode.binding?, hready, Option.map_some] at hbinding
  cases hbuilt : buildNode registry config source with
  | error reason => simp [hbuilt, builtNode, ProgramNode.ready?] at hbinding
  | ok ready =>
      simp only [hbuilt, builtNode, ProgramNode.ready?, Option.map_some, Option.some.injEq,
        Prod.mk.injEq] at hbinding
      obtain ⟨hcapability, hparams⟩ := hbinding
      exact hcapability ▸ hparams ▸ buildNode_admits hbuilt

theorem build_typed (registry : Registry) (config : RuntimeConfig) (d : GraphDefinition)
    {event : String} {program : Program}
    (h : (d.build registry config).blueprint.events.find? event = some program) :
    program.Typed registry := by
  rw [GraphDefinition.find?_build_events, Option.map_eq_some_iff] at h
  obtain ⟨graph, -, rfl⟩ := h
  exact buildEvent_typed registry config event graph (d.start? event)

end Nodeflow
