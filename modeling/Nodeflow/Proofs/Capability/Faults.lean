import Nodeflow.Player.Gameplay
import Nodeflow.Proofs.Program.Typing

/-!
# What calls with the right arguments fail with

A call that is given what the descriptor of its capability declares never lacks an argument
nor its owner.  The built-in and gameplay capabilities have few other ways to fail: a count
of frames that is out of range, an owner without hit points, and a field that the owner
refuses to set.
-/

namespace Nodeflow

/-! ## What a call does, step by step -/

namespace Call

variable {α β : Type}

theorem run_bind (call : Call α) (next : α → Call β) (context : CallContext) :
    (call >>= next).run.run context =
      match call.run.run context with
      | (.ok a, context) => (next a).run.run context
      | (.error e, context) => (.error e, context) := by
  simp only [ExceptT.run_bind, StateT.run_bind]
  rcases call.run.run context with ⟨e | a, context⟩ <;> rfl

theorem run_pure (a : α) (context : CallContext) :
    (pure a : Call α).run.run context = (.ok a, context) :=
  rfl

theorem run_get (context : CallContext) :
    (get : Call CallContext).run.run context = (.ok context, context) :=
  rfl

theorem run_modify (f : CallContext → CallContext) (context : CallContext) :
    (modify f : Call PUnit).run.run context = (.ok (), f context) :=
  rfl

theorem run_arg {name : String} {context : CallContext} {a : String × Value}
    (hfound : context.args.find? (fun a => a.1 == name) = some a) :
    (arg name).run.run context = (.ok a.2, context) := by
  simp only [arg, run_bind, run_get, hfound, run_pure]

theorem run_argAs {name expected : String} {read : Value → Option α} {context : CallContext}
    {a : String × Value} {x : α} (hfound : context.args.find? (fun a => a.1 == name) = some a)
    (hread : read a.2 = some x) :
    (argAs name expected read).run.run context = (.ok x, context) := by
  simp only [argAs, run_bind, run_arg hfound, hread, run_pure]

theorem run_owner {context : CallContext} {o : Object} (howner : context.owner = some o) :
    owner.run.run context = (.ok o, context) := by
  simp only [owner, run_bind, run_get, howner, run_pure]

theorem run_setField {name : String} {value : Value} {context : CallContext} {o : Object}
    (howner : context.owner = some o) :
    (setField name value).run.run context =
      ((o.setField name value).1, { context with owner := some (o.setField name value).2 }) := by
  simp only [setField, run_bind, run_owner howner, run_modify]
  cases (o.setField name value).1 <;> rfl

end Call

/-! ## Arguments as declared -/

def ParamSpec.Takes (spec : ParamSpec) (arg : String × Value) : Prop :=
  arg.1 = spec.name ∧ spec.type.Holds arg.2

def Descriptor.Takes (d : Descriptor) (args : List (String × Value)) : Prop :=
  List.Forall₂ ParamSpec.Takes d.params args

/-- The context of a call that is made as the descriptor declares. -/
structure CallContext.Meets (context : CallContext) (d : Descriptor) : Prop where
  args : d.Takes context.args
  owner : context.owner.isSome = d.method

def CallContext.Holds (context : CallContext) (name : String) (type : ParamType) : Prop :=
  ∃ v, context.args.find? (fun a => a.1 == name) = some (name, v) ∧ type.Holds v

theorem find?_of_takes {specs : List ParamSpec} {args : List (String × Value)}
    (h : List.Forall₂ ParamSpec.Takes specs args) (hnodup : (specs.map ParamSpec.name).Nodup)
    {spec : ParamSpec} (hspec : spec ∈ specs) :
    ∃ v, args.find? (fun a => a.1 == spec.name) = some (spec.name, v) ∧ spec.type.Holds v := by
  induction h with
  | nil => contradiction
  | @cons first arg specs args hfirst hrest ih =>
      obtain ⟨name, v⟩ := arg
      obtain ⟨rfl, hv⟩ := hfirst
      rw [List.map_cons, List.nodup_cons] at hnodup
      rcases List.mem_cons.1 hspec with rfl | hspec
      · exact ⟨v, by simp, hv⟩
      · have hne : first.name ≠ spec.name := fun heq =>
          hnodup.1 (heq ▸ List.mem_map_of_mem hspec)
        obtain ⟨v', hfound, hv'⟩ := ih hnodup.2 hspec
        exact ⟨v', by rw [List.find?_cons_of_neg (by simpa using hne), hfound], hv'⟩

namespace CallContext

variable {context : CallContext} {d : Descriptor} {name : String}

theorem Meets.holds (h : context.Meets d) (name : String) (type : ParamType)
    (hnodup : (d.params.map ParamSpec.name).Nodup) (hspec : ⟨name, type⟩ ∈ d.params) :
    context.Holds name type :=
  find?_of_takes h.args hnodup hspec

theorem Meets.exists_owner (h : context.Meets d) (hmethod : d.method = true) :
    ∃ o, context.owner = some o :=
  Option.isSome_iff_exists.1 (h.owner.trans hmethod)

theorem Holds.run_arg {type : ParamType} (h : context.Holds name type) :
    ∃ v, (Call.arg name).run.run context = (.ok v, context) := by
  obtain ⟨v, hfound, -⟩ := h
  exact ⟨v, Call.run_arg hfound⟩

theorem Holds.run_int (h : context.Holds name .int) :
    ∃ i, (name, .int i) ∈ context.args ∧ (Call.int name).run.run context = (.ok i, context) := by
  obtain ⟨v, hfound, hv⟩ := h
  cases hv with
  | int i => exact ⟨i, List.mem_of_find?_eq_some hfound, Call.run_argAs hfound rfl⟩

theorem Holds.run_float (h : context.Holds name .float) :
    ∃ x, (Call.float name).run.run context = (.ok x, context) := by
  obtain ⟨v, hfound, hv⟩ := h
  cases hv with
  | float x => exact ⟨x, Call.run_argAs hfound rfl⟩

theorem Holds.run_bool (h : context.Holds name .bool) :
    ∃ b, (Call.bool name).run.run context = (.ok b, context) := by
  obtain ⟨v, hfound, hv⟩ := h
  cases hv with
  | bool b => exact ⟨b, Call.run_argAs hfound rfl⟩

theorem Holds.run_text (h : context.Holds name .text) :
    ∃ s, (Call.text name).run.run context = (.ok s, context) := by
  obtain ⟨v, hfound, hv⟩ := h
  cases hv with
  | text s => exact ⟨s, Call.run_argAs hfound rfl⟩

end CallContext

/-! ## The faults there are -/

/-- What a call made as declared may fail with, if it is one of the capabilities known here. -/
inductive Fault (c : Capability) (context : CallContext) : CapabilityError → Prop
  | frames {i : Int64} (hc : c = Builtin.waitFrames) (hargs : context.args = [("frames", .int i)])
      (hrange : i.toInt < 0 ∨ UInt32.size ≤ i.toInt) :
      Fault c context (.argumentType "frames" "a non-negative int")
  | hitPoints : Fault c context (.unknownField Gameplay.hitPoints)
  | refused {o : Object} {field : String} {value : Value} {error : CapabilityError}
      (howner : context.owner = some o) (herror : (o.setField field value).1 = .error error) :
      Fault c context error

def Capability.Returns (c : Capability) : Prop :=
  ∀ context, context.Meets c.descriptor →
    ∃ result after, c.invoke.run.run context = (.ok result, after)

namespace Builtin

theorem branch_returns : branch.Returns := by
  intro context h
  obtain ⟨b, hb⟩ := (h.holds "condition" .bool (by decide) (by decide)).run_bool
  simp only [branch, Call.run_bind, hb, Call.run_pure]
  exact ⟨_, _, rfl⟩

theorem compare_returns : compare.Returns := by
  intro context h
  obtain ⟨a, ha⟩ := (h.holds "a" .float (by decide) (by decide)).run_float
  obtain ⟨b, hb⟩ := (h.holds "b" .float (by decide) (by decide)).run_float
  simp only [compare, Call.run_bind, ha, hb, Call.run_pure]
  exact ⟨_, _, rfl⟩

theorem print_returns : print.Returns := by
  intro context h
  obtain ⟨v, hv⟩ := (h.holds "text" .expression (by decide) (by decide)).run_arg
  simp only [print, Call.print, Call.run_bind, hv, Call.run_modify, Call.run_pure]
  exact ⟨_, _, rfl⟩

theorem setVariable_returns : setVariable.Returns := by
  intro context h
  obtain ⟨name, hname⟩ := (h.holds "name" .text (by decide) (by decide)).run_text
  obtain ⟨v, hv⟩ := (h.holds "value" .expression (by decide) (by decide)).run_arg
  simp only [setVariable, Call.setVariable, Call.run_bind, hname, hv, Call.run_modify,
    Call.run_pure]
  exact ⟨_, _, rfl⟩

theorem setLocal_returns : setLocal.Returns := by
  intro context h
  obtain ⟨name, hname⟩ := (h.holds "name" .text (by decide) (by decide)).run_text
  obtain ⟨v, hv⟩ := (h.holds "value" .expression (by decide) (by decide)).run_arg
  simp only [setLocal, Call.setLocal, Call.run_bind, hname, hv, Call.run_modify, Call.run_pure]
  exact ⟨_, _, rfl⟩

theorem delay_returns : delay.Returns := by
  intro context h
  obtain ⟨seconds, hseconds⟩ := (h.holds "seconds" .float (by decide) (by decide)).run_float
  simp only [delay, Call.run_bind, hseconds, Call.run_pure]
  exact ⟨_, _, rfl⟩

theorem nextTick_returns : nextTick.Returns := by
  intro context _
  exact ⟨_, _, rfl⟩

theorem setField_fault {context : CallContext} (h : context.Meets setField.descriptor)
    {error : CapabilityError} (herror : (setField.invoke.run.run context).1 = .error error) :
    Fault setField context error := by
  obtain ⟨field, hfield⟩ := (h.holds "field" .text (by decide) (by decide)).run_text
  obtain ⟨v, hv⟩ := (h.holds "value" .expression (by decide) (by decide)).run_arg
  obtain ⟨o, howner⟩ := h.exists_owner rfl
  simp only [setField, Call.run_bind, hfield, hv, Call.run_setField howner] at herror
  cases hset : (o.setField field v).1 with
  | ok _ => simp only [hset, Call.run_pure, reduceCtorEq] at herror
  | error e =>
      simp only [hset, Except.error.injEq] at herror
      exact .refused howner (hset.trans (congrArg _ herror))

theorem waitFrames_args {context : CallContext} (h : context.Meets waitFrames.descriptor) :
    ∃ i : Int64, context.args = [("frames", .int i)] ∧
      (Call.int "frames").run.run context = (.ok i, context) := by
  obtain ⟨i, hmem, hi⟩ := (h.holds "frames" .int (by decide) (by decide)).run_int
  refine ⟨i, ?_, hi⟩
  obtain ⟨arg, rest, -, hrest, hargs⟩ := List.forall₂_cons_left_iff.1 h.args
  rw [List.forall₂_nil_left_iff.1 hrest] at hargs
  rw [hargs, List.mem_singleton] at hmem
  rw [hargs, hmem]

theorem waitFrames_fault {context : CallContext} (h : context.Meets waitFrames.descriptor)
    {error : CapabilityError} (herror : (waitFrames.invoke.run.run context).1 = .error error) :
    Fault waitFrames context error := by
  obtain ⟨i, hargs, hi⟩ := waitFrames_args h
  simp only [waitFrames, Call.run_bind, hi, frameCount?] at herror
  split at herror
  · contradiction
  · rename_i hnone
    cases herror
    refine .frames rfl hargs ?_
    split at hnone
    · contradiction
    · omega

end Builtin

namespace Gameplay

theorem playEffect_returns : playEffect.Returns := by
  intro context h
  obtain ⟨effect, heffect⟩ := (h.holds "effect" .text (by decide) (by decide)).run_text
  simp only [playEffect, Call.print, Call.run_bind, heffect, Call.run_modify, Call.run_pure]
  exact ⟨_, _, rfl⟩

theorem isAlive_returns : isAlive.Returns := by
  intro context h
  obtain ⟨o, howner⟩ := h.exists_owner rfl
  simp only [isAlive, Call.run_bind, Call.run_owner howner, Call.run_pure]
  exact ⟨_, _, rfl⟩

theorem applyDamage_fault {context : CallContext} (h : context.Meets applyDamage.descriptor)
    {error : CapabilityError} (herror : (applyDamage.invoke.run.run context).1 = .error error) :
    Fault applyDamage context error := by
  obtain ⟨amount, -, hamount⟩ := (h.holds "amount" .int (by decide) (by decide)).run_int
  obtain ⟨o, howner⟩ := h.exists_owner rfl
  simp only [applyDamage, Call.run_bind, hamount, Call.run_owner howner] at herror
  split at herror
  · contradiction
  · split at herror
    · cases herror
      exact .hitPoints
    · split at herror
      · contradiction
      · rename_i left _
        simp only [Call.run_bind, Call.run_setField howner] at herror
        cases hset : (o.setField hitPoints (.int left)).1 with
        | ok _ => simp only [hset, Call.run_pure, reduceCtorEq] at herror
        | error e =>
            simp only [hset, Except.error.injEq] at herror
            exact .refused howner (hset.trans (congrArg _ herror))

end Gameplay

theorem Capability.Returns.fault {c : Capability} (hc : c.Returns) {context : CallContext}
    (h : context.Meets c.descriptor) {error : CapabilityError}
    (herror : (c.invoke.run.run context).1 = .error error) : Fault c context error := by
  obtain ⟨result, after, hrun⟩ := hc context h
  rw [hrun] at herror
  contradiction

theorem fault_of_meets {c : Capability} (hc : c ∈ Builtin.all ++ Gameplay.all)
    {context : CallContext} (h : context.Meets c.descriptor) {error : CapabilityError}
    (herror : (c.invoke.run.run context).1 = .error error) : Fault c context error := by
  simp only [Builtin.all, Gameplay.all, List.cons_append, List.nil_append, List.mem_cons,
    List.not_mem_nil, or_false] at hc
  rcases hc with rfl | rfl | rfl | rfl | rfl | rfl | rfl | rfl | rfl | rfl | rfl | rfl
  · exact Builtin.branch_returns.fault h herror
  · exact Builtin.compare_returns.fault h herror
  · exact Builtin.print_returns.fault h herror
  · exact Builtin.setVariable_returns.fault h herror
  · exact Builtin.setLocal_returns.fault h herror
  · exact Builtin.setField_fault h herror
  · exact Builtin.delay_returns.fault h herror
  · exact Builtin.nextTick_returns.fault h herror
  · exact Builtin.waitFrames_fault h herror
  · exact Gameplay.applyDamage_fault h herror
  · exact Gameplay.playEffect_returns.fault h herror
  · exact Gameplay.isAlive_returns.fault h herror

end Nodeflow
