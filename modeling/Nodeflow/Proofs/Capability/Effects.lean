import Nodeflow.Proofs.Capability.Faults

/-!
# Calls that fail have done nothing

The built-in and gameplay capabilities look at all they need before they have an effect, and
have one effect at most.  A call that fails has therefore changed nothing, as long as the
owner is not changed by a field it refuses; and a call that is not latent never waits.
-/

namespace Nodeflow

/-! ## Objects that refuse cleanly -/

def Rules.RefuseCleanly (rules : Rules) : Prop :=
  ∀ body name value error, (rules.setField body name value).2 = .error error →
    (rules.setField body name value).1 = body

namespace Object

def RefusesCleanly (o : Object) : Prop :=
  match o.nature with
  | .actor _ _ => True
  | .custom _ rules => rules.RefuseCleanly

theorem RefusesCleanly.of_actor {o : Object} {exposed : NameMap Unit} {natives : List Native}
    (h : o.nature = .actor exposed natives) : o.RefusesCleanly := by
  simp only [RefusesCleanly, h]

theorem RefusesCleanly.refuse {o : Object} (h : o.RefusesCleanly) {name : String} {value : Value}
    {error : CapabilityError} (herror : (o.setField name value).1 = .error error) :
    (o.setField name value).2 = o := by
  obtain ⟨className, fields, nature⟩ := o
  cases nature with
  | actor exposed natives => contradiction
  | custom memory rules =>
      have hbody := h ⟨className, fields, memory⟩ name value error herror
      simp only [Object.setField, hbody, Body.object]

theorem RefusesCleanly.setField {o : Object} (h : o.RefusesCleanly) (name : String)
    (value : Value) : (o.setField name value).2.RefusesCleanly := by
  obtain ⟨className, fields, nature⟩ := o
  cases nature <;> exact h

theorem RefusesCleanly.callNative {o : Object} (h : o.RefusesCleanly)
    (className event : String) (args : EventArgs) :
    (o.callNative className event args).object.RefusesCleanly := by
  obtain ⟨name, fields, nature⟩ := o
  cases nature with
  | actor exposed natives =>
      simp only [Object.callNative]
      split <;> trivial
  | custom memory rules => exact h

end Object

/-! ## Calls that only read -/

namespace Call

variable {α β : Type}

def Reads (call : Call α) : Prop :=
  ∀ context, (call.run.run context).2 = context

theorem reads_pure (a : α) : (pure a : Call α).Reads :=
  fun _ => rfl

theorem reads_throw (error : CapabilityError) : (throw error : Call α).Reads :=
  fun _ => rfl

theorem Reads.bind {call : Call α} {next : α → Call β} (hcall : call.Reads)
    (hnext : ∀ a, (next a).Reads) : (call >>= next).Reads := by
  intro context
  have hcall := hcall context
  rw [run_bind]
  generalize call.run.run context = result at hcall ⊢
  obtain ⟨error | a, after⟩ := result
  · exact hcall
  · obtain rfl : after = context := hcall
    exact hnext a after

theorem reads_get : (get : Call CallContext).Reads :=
  fun _ => rfl

theorem reads_arg (name : String) : (arg name).Reads := by
  refine reads_get.bind fun context => ?_
  split
  · exact reads_pure _
  · exact reads_throw _

theorem reads_argAs (name expected : String) (read : Value → Option α) :
    (argAs name expected read).Reads := by
  refine (reads_arg name).bind fun value => ?_
  split
  · exact reads_pure _
  · exact reads_throw _

theorem reads_owner : owner.Reads := by
  refine reads_get.bind fun context => ?_
  split
  · exact reads_pure _
  · exact reads_throw _

end Call

/-! ## Calls with one effect -/

def CallContext.Clean (context : CallContext) : Prop :=
  ∀ o ∈ context.owner, o.RefusesCleanly

namespace Call

variable {α β : Type}

/-- A call that fails has changed nothing, and what it returns is as asked for. -/
structure Tidy (post : α → Prop) (call : Call α) : Prop where
  failed : ∀ {context error after}, context.Clean →
    call.run.run context = (.error error, after) → after = context
  returned : ∀ {context a after}, context.Clean →
    call.run.run context = (.ok a, after) → after.Clean ∧ post a

variable {post : α → Prop}

theorem tidy_pure {a : α} (ha : post a) : (pure a : Call α).Tidy post where
  failed _ h := by cases h
  returned hclean h := by
    cases h
    exact ⟨hclean, ha⟩

theorem tidy_throw (error : CapabilityError) : (throw error : Call α).Tidy post where
  failed _ h := by
    cases h
    rfl
  returned _ h := by cases h

theorem Reads.tidy_bind {call : Call β} {next : β → Call α} (hcall : call.Reads)
    (hnext : ∀ b, (next b).Tidy post) : (call >>= next).Tidy post := by
  have hrun : ∀ context, (∃ error, (call >>= next).run.run context = (.error error, context)) ∨
      ∃ b, (call >>= next).run.run context = (next b).run.run context := by
    intro context
    have hcall := hcall context
    rw [run_bind]
    generalize call.run.run context = result at hcall ⊢
    obtain ⟨error | b, after⟩ := result
    · obtain rfl : after = context := hcall
      exact .inl ⟨error, rfl⟩
    · obtain rfl : after = context := hcall
      exact .inr ⟨b, rfl⟩
  constructor
  · intro context error after hclean h
    rcases hrun context with ⟨error', h'⟩ | ⟨b, h'⟩
    · rw [h'] at h
      cases h
      rfl
    · exact (hnext b).failed hclean (h'.symm.trans h)
  · intro context a after hclean h
    rcases hrun context with ⟨error', h'⟩ | ⟨b, h'⟩
    · rw [h'] at h
      cases h
    · exact (hnext b).returned hclean (h'.symm.trans h)

def Writes (call : Call PUnit) : Prop :=
  ∀ context, ∃ after, call.run.run context = (.ok (), after) ∧ after.owner = context.owner

theorem writes_print (line : String) : (print line).Writes :=
  fun _ => ⟨_, rfl, rfl⟩

theorem writes_setLocal (name : String) (value : Value) : (setLocal name value).Writes :=
  fun _ => ⟨_, rfl, rfl⟩

theorem writes_setVariable (name : String) (value : Value) : (setVariable name value).Writes :=
  fun _ => ⟨_, rfl, rfl⟩

theorem Writes.tidy {call : Call PUnit} (hcall : call.Writes) : call.Tidy fun _ => True := by
  constructor
  · intro context error after _ h
    obtain ⟨written, hwritten, -⟩ := hcall context
    rw [hwritten] at h
    cases h
  · intro context _ after hclean h
    obtain ⟨written, hwritten, howner⟩ := hcall context
    rw [hwritten] at h
    cases h
    exact ⟨fun o ho => hclean o (howner ▸ ho), trivial⟩

theorem run_setField_of_none {context : CallContext} (howner : context.owner = none)
    (name : String) (value : Value) :
    (setField name value).run.run context = (.error .noObject, context) := by
  simp only [setField, owner, run_bind, run_get, howner]
  rfl

theorem tidy_setField (name : String) (value : Value) :
    (setField name value).Tidy fun _ => True := by
  constructor
  · intro context error after hclean h
    cases howner : context.owner with
    | none =>
        rw [run_setField_of_none howner] at h
        cases h
        rfl
    | some o =>
        rw [run_setField howner] at h
        obtain ⟨hresult, rfl⟩ := Prod.mk.inj h
        rw [(hclean o howner).refuse hresult, ← howner]
  · intro context _ after hclean h
    cases howner : context.owner with
    | none =>
        rw [run_setField_of_none howner] at h
        cases h
    | some o =>
        rw [run_setField howner] at h
        obtain ⟨-, rfl⟩ := Prod.mk.inj h
        refine ⟨fun changed hchanged => ?_, trivial⟩
        cases hchanged
        exact (hclean o howner).setField name value

theorem Tidy.returning {call : Call PUnit} (hcall : call.Tidy fun _ => True) {a : α}
    (ha : post a) : (do call; pure a : Call α).Tidy post := by
  constructor
  · intro context error after hclean h
    rw [run_bind] at h
    generalize hrun : call.run.run context = result at h
    obtain ⟨error' | _, after'⟩ := result
    · obtain rfl : after' = after := (Prod.mk.inj h).2
      exact hcall.failed hclean hrun
    · cases h
  · intro context b after hclean h
    rw [run_bind] at h
    generalize hrun : call.run.run context = result at h
    obtain ⟨error' | _, after'⟩ := result
    · cases h
    · cases h
      exact ⟨(hcall.returned hclean hrun).1, ha⟩

end Call

/-! ## The capabilities there are -/

def Capability.Tidy (c : Capability) : Prop :=
  c.invoke.Tidy fun invocation =>
    ∀ v condition, invocation = .suspend v condition → c.descriptor.latent = true

namespace Builtin

theorem branch_tidy : branch.Tidy :=
  (Call.reads_argAs _ _ _).tidy_bind fun _ => Call.tidy_pure nofun

theorem compare_tidy : compare.Tidy :=
  (Call.reads_argAs _ _ _).tidy_bind fun _ => (Call.reads_argAs _ _ _).tidy_bind fun _ =>
    Call.tidy_pure nofun

theorem print_tidy : print.Tidy :=
  (Call.reads_arg _).tidy_bind fun _ => (Call.writes_print _).tidy.returning nofun

theorem setVariable_tidy : setVariable.Tidy :=
  (Call.reads_argAs _ _ _).tidy_bind fun _ => (Call.reads_arg _).tidy_bind fun _ =>
    (Call.writes_setVariable _ _).tidy.returning nofun

theorem setLocal_tidy : setLocal.Tidy :=
  (Call.reads_argAs _ _ _).tidy_bind fun _ => (Call.reads_arg _).tidy_bind fun _ =>
    (Call.writes_setLocal _ _).tidy.returning nofun

theorem setField_tidy : setField.Tidy :=
  (Call.reads_argAs _ _ _).tidy_bind fun _ => (Call.reads_arg _).tidy_bind fun _ =>
    (Call.tidy_setField _ _).returning nofun

theorem delay_tidy : delay.Tidy :=
  (Call.reads_argAs _ _ _).tidy_bind fun _ => Call.tidy_pure fun _ _ _ => rfl

theorem nextTick_tidy : nextTick.Tidy :=
  Call.tidy_pure fun _ _ _ => rfl

theorem waitFrames_tidy : waitFrames.Tidy := by
  refine (Call.reads_argAs _ _ _).tidy_bind fun frames => ?_
  split
  · exact Call.tidy_pure fun _ _ _ => rfl
  · exact Call.tidy_throw _

end Builtin

namespace Gameplay

theorem applyDamage_tidy : applyDamage.Tidy := by
  refine (Call.reads_argAs _ _ _).tidy_bind fun amount => Call.reads_owner.tidy_bind fun owner => ?_
  split
  · exact Call.tidy_pure nofun
  · split
    · exact Call.tidy_throw _
    · split
      · exact Call.tidy_pure nofun
      · exact (Call.tidy_setField _ _).returning nofun

theorem playEffect_tidy : playEffect.Tidy :=
  (Call.reads_argAs _ _ _).tidy_bind fun _ => (Call.writes_print _).tidy.returning nofun

theorem isAlive_tidy : isAlive.Tidy :=
  Call.reads_owner.tidy_bind fun _ => Call.tidy_pure nofun

end Gameplay

theorem tidy_of_mem {c : Capability} (hc : c ∈ Builtin.all ++ Gameplay.all) : c.Tidy := by
  simp only [Builtin.all, Gameplay.all, List.cons_append, List.nil_append, List.mem_cons,
    List.not_mem_nil, or_false] at hc
  rcases hc with rfl | rfl | rfl | rfl | rfl | rfl | rfl | rfl | rfl | rfl | rfl | rfl
  · exact Builtin.branch_tidy
  · exact Builtin.compare_tidy
  · exact Builtin.print_tidy
  · exact Builtin.setVariable_tidy
  · exact Builtin.setLocal_tidy
  · exact Builtin.setField_tidy
  · exact Builtin.delay_tidy
  · exact Builtin.nextTick_tidy
  · exact Builtin.waitFrames_tidy
  · exact Gameplay.applyDamage_tidy
  · exact Gameplay.playEffect_tidy
  · exact Gameplay.isAlive_tidy

end Nodeflow
