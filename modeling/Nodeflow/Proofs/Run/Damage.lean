import Mathlib
import Nodeflow.Player.Gameplay
import Nodeflow.Proofs.Ancestry
import Nodeflow.Proofs.Capability.Faults
import Nodeflow.Proofs.Data.Values
import Nodeflow.Proofs.Run.Execution
import Nodeflow.Proofs.World.Arena
import Nodeflow.Proofs.World.Operation

/-!
# Damage

A node of a graph and the native behaviour of pawns both take damage off the hit points of an
object.  They do the same to hit points that are an integer: the difference is exact, or if it
fits in no word they panic.  Any other value the node refuses, while a pawn counts it as zero.
-/

namespace Nodeflow

theorem word?_eq_some_iff {i : Int} {n : Int64} : word? i = some n ↔ n.toInt = i := by
  constructor
  · intro h
    have hlow : Int64.minValue.toInt = -2 ^ 63 := by decide
    have hhigh : Int64.maxValue.toInt = 2 ^ 63 - 1 := by decide
    rw [word?, hlow, hhigh] at h
    split at h
    · rename_i hfits
      obtain rfl : Int64.ofInt i = n := Option.some.inj h
      exact Int64.toInt_ofInt_of_le hfits.1 (by omega)
    · contradiction
  · rintro rfl
    exact word?_toInt n

namespace Gameplay

/-! ## Hit points -/

theorem pointsOf?_eq_some_iff {fields : NameMap Value} {points : Int64} :
    pointsOf? fields = some points ↔ fields.find? hitPoints = some (.int points) := by
  rw [pointsOf?, Option.bind_eq_some_iff]
  constructor
  · rintro ⟨v, hv, hpoints⟩
    cases v <;> cases hpoints
    exact hv
  · exact fun h => ⟨_, h, rfl⟩

theorem lowered?_eq_some_iff {points damage left : Int64} :
    lowered? points damage = some left ↔ left.toInt = points.toInt - damage.toInt :=
  word?_eq_some_iff

/-- The fields after damage, if it can be taken; what is no integer counts as zero. -/
def hurt? (fields : NameMap Value) (damage : Int64) : Option (NameMap Value) :=
  (lowered? ((pointsOf? fields).getD 0) damage).map fun left =>
    fields.insert hitPoints (.int left)

theorem pointsOf?_hurt {fields fields' : NameMap Value} {points damage : Int64}
    (hpoints : pointsOf? fields = some points) (hhurt : hurt? fields damage = some fields') :
    ∃ left, pointsOf? fields' = some left ∧ left.toInt = points.toInt - damage.toInt := by
  rw [hurt?, hpoints, Option.getD_some] at hhurt
  obtain ⟨left, hleft, rfl⟩ := Option.map_eq_some_iff.1 hhurt
  refine ⟨left, ?_, lowered?_eq_some_iff.1 hleft⟩
  rw [pointsOf?_eq_some_iff, NameMap.find?_insert_self]

theorem isSome_hurt {fields : NameMap Value} {points damage : Int64}
    (hpoints : pointsOf? fields = some points) :
    (hurt? fields damage).isSome = (word? (points.toInt - damage.toInt)).isSome := by
  rw [hurt?, hpoints, Option.getD_some, Option.isSome_map, lowered?]

example : (hurt? (.ofList [(hitPoints, .float 10.5)]) 4).bind pointsOf? = some (-4) := by
  decide +kernel

/-! ## The node that takes damage -/

section Call

variable {context : CallContext} {o : Object} {damage points : Int64}

theorem run_applyDamage
    (hamount : context.args.find? (fun a => a.1 == "amount") = some ("amount", .int damage))
    (howner : context.owner = some o) (hactor : o.isActor = true)
    (hvulnerable : o.field? "invulnerable" ≠ some (.bool true)) :
    applyDamage.invoke.run.run context =
      match pointsOf? o.fields, hurt? o.fields damage with
      | none, _ => (.error (.unknownField hitPoints), context)
      | some _, none => (.ok .panic, context)
      | some _, some fields => (.ok (.done (.bool true)),
          { context with owner := some { o with fields } }) := by
  have hread : (Call.int "amount").run.run context = (.ok damage, context) :=
    Call.run_argAs hamount rfl
  simp only [applyDamage, Call.run_bind, hread, Call.run_owner howner, if_neg hvulnerable, hurt?]
  cases hpoints : pointsOf? o.fields with
  | none => rfl
  | some points =>
      rw [Option.getD_some]
      cases hleft : lowered? points damage with
      | none => simp only [hleft, Option.map_none, Call.run_pure]
      | some left =>
          obtain ⟨className, fields, nature⟩ := o
          cases nature with
          | custom memory rules => contradiction
          | actor exposed natives =>
              simp only [hleft, Option.map_some, Call.run_bind, Call.run_setField howner,
                Object.setField, Call.run_pure]

theorem run_isAlive (howner : context.owner = some o) :
    isAlive.invoke.run.run context =
      (.ok (.done (.bool (0 < (pointsOf? o.fields).getD 0))), context) := by
  simp only [isAlive, Call.run_bind, Call.run_owner howner, Call.run_pure]

end Call

section Node

variable {config : RuntimeConfig} {node : ReadyNode} {store : Store} {scope : LocalScope}
  {p : BoundParam} {damage : Int64}

theorem runNode_applyDamage (index : Nat) (hparams : node.params = [p])
    (hp : p.value config ⟨scope, store.vars, some store.object.fields⟩ ⟨"amount", .int⟩ =
      .ok (.int damage))
    (hactor : store.object.isActor = true)
    (hvulnerable : store.object.field? "invulnerable" ≠ some (.bool true)) :
    let run := runNode config index node applyDamage store scope
    match pointsOf? store.object.fields, hurt? store.object.fields damage with
    | none, _ =>
      run.store = store ∧
      run.verdict = .abort (.capability index "ApplyDamage" (.unknownField hitPoints))
    | some _, none => run.store = store ∧ run.verdict = .panic
    | some _, some fields =>
      run.store = { store with object := { store.object with fields } } ∧
      run.verdict = .advance (some 0) := by
  have hargs : arguments config ⟨scope, store.vars, some store.object.fields⟩
      applyDamage.descriptor.params node.params = .ok [("amount", .int damage)] := by
    simp only [applyDamage, hparams, arguments, hp, Except.mapError, bind, Except.bind, pure,
      Except.pure]
  have hrun := @run_applyDamage (callContext applyDamage store scope [("amount", .int damage)])
    store.object damage rfl rfl hactor hvulnerable
  simp only [runNode, hargs, callNode_eq]
  cases hpoints : pointsOf? store.object.fields with
  | none =>
      simp only [hpoints] at hrun
      simp only [hrun]
      exact ⟨rfl, rfl⟩
  | some points =>
      cases hhurt : hurt? store.object.fields damage with
      | none =>
          simp only [hpoints, hhurt] at hrun
          simp only [hrun]
          exact ⟨rfl, rfl⟩
      | some fields =>
          simp only [hpoints, hhurt] at hrun
          simp only [hrun]
          exact ⟨rfl, rfl⟩

theorem runNode_isAlive (index : Nat) :
    let run := runNode config index node isAlive store scope
    run.store = store ∧
    run.verdict =
      .advance (some (if 0 < (pointsOf? store.object.fields).getD 0 then 0 else 1)) := by
  have hrun := @run_isAlive (callContext isAlive store scope []) store.object rfl
  have hargs : arguments config ⟨scope, store.vars, some store.object.fields⟩
      isAlive.descriptor.params node.params = .ok [] := rfl
  simp only [runNode, hargs, callNode_eq, hrun]
  refine ⟨rfl, ?_⟩
  split <;> rename_i hpoints <;> simp only [hpoints] <;> rfl

end Node

/-! ## Pawns -/

def damageOf (args : EventArgs) : Int64 :=
  ((args.find? "damage").bind Value.asInt?).getD 0

def TakesHits (o : Object) : Prop :=
  ∃ exposed natives, o.nature = .actor exposed natives ∧
    exposed.contains pawnOnHit.event = true ∧
    natives.find? (·.isFor pawnOnHit.className pawnOnHit.event) = some pawnOnHit

theorem find?_placeNative (n : Native) (natives : List Native) :
    (Object.placeNative n natives).find? (·.isFor n.className n.event) = some n := by
  induction natives with
  | nil => simp [Object.placeNative, Native.isFor]
  | cons m rest ih =>
      rw [Object.placeNative]
      split
      · simp [Native.isFor]
      · rename_i hother
        simp [hother, ih]

theorem takesHits_withBehaviour {o : Object} (h : o.isActor = true) :
    TakesHits (withBehaviour o pawnOnHit.className) := by
  obtain ⟨className, fields, nature⟩ := o
  cases nature with
  | custom memory rules => contradiction
  | actor exposed natives =>
      exact ⟨_, _, rfl, by simp [NameMap.contains], find?_placeNative pawnOnHit natives⟩

def hitNote (damage : Int64) : String :=
  "Pawn took " ++ toString damage.toInt ++ " damage natively"

theorem runNative_pawnOnHit {natives : List Native}
    (h : natives.find? (·.isFor pawnOnHit.className pawnOnHit.event) = some pawnOnHit)
    (fields : NameMap Value) (args : EventArgs) :
    Object.runNative pawnOnHit.className pawnOnHit.event fields args natives =
      some (natives, (hurt? fields (damageOf args)).getD fields,
        (hurt? fields (damageOf args)).map fun _ => [hitNote (damageOf args)]) := by
  induction natives with
  | nil => contradiction
  | cons n rest ih =>
      rw [List.find?_cons] at h
      unfold Object.runNative
      split at h
      · rename_i hfor
        obtain rfl : n = pawnOnHit := Option.some.inj h
        rw [if_pos hfor]
        simp only [pawnOnHit, hurt?, damageOf, hitNote]
        split <;> rename_i hleft <;> rw [hleft] <;> rfl
      · rename_i hother
        rw [if_neg (by simp [hother]), ih h]
        rfl

theorem callNative_pawnOnHit {o : Object} (h : TakesHits o) (args : EventArgs) :
    o.callNative pawnOnHit.className pawnOnHit.event args =
      match hurt? o.fields (damageOf args) with
      | none => ⟨o, .panicked, []⟩
      | some fields => ⟨{ o with fields }, .handled, [hitNote (damageOf args)]⟩ := by
  obtain ⟨exposed, natives, hnature, -, hfind⟩ := h
  obtain ⟨className, fields, nature⟩ := o
  obtain rfl : nature = .actor exposed natives := hnature
  simp only [Object.callNative, runNative_pawnOnHit hfind]
  cases hurt? fields (damageOf args) <;> rfl

/-- The node does what the pawn does just where the hit points are an integer. -/
theorem damage_paths_agree_iff {config : RuntimeConfig} {index : Nat} {node : ReadyNode}
    {store : Store} {scope : LocalScope} {p : BoundParam} {args : EventArgs}
    (hparams : node.params = [p])
    (hp : p.value config ⟨scope, store.vars, some store.object.fields⟩ ⟨"amount", .int⟩ =
      .ok (.int (damageOf args)))
    (hhits : TakesHits store.object)
    (hvulnerable : store.object.field? "invulnerable" ≠ some (.bool true)) :
    let run := runNode config index node applyDamage store scope
    let call := store.object.callNative pawnOnHit.className pawnOnHit.event args
    (run.store.object = call.object ∧
        ((run.verdict = .advance (some 0) ∧ call.result = .handled) ∨
          (run.verdict = .panic ∧ call.result = .panicked))) ↔
      ∃ points, store.object.field? hitPoints = some (.int points) := by
  intro run call
  have hactor : store.object.isActor = true := by
    obtain ⟨exposed, natives, hnature, -⟩ := hhits
    rw [Object.isActor, hnature]
  have hnode := runNode_applyDamage index hparams hp hactor hvulnerable
  simp only [Object.field?, ← pointsOf?_eq_some_iff]
  have hcall : call = _ := callNative_pawnOnHit hhits args
  cases hpoints : pointsOf? store.object.fields with
  | none =>
      simp only [hpoints] at hnode
      obtain ⟨-, hverdict⟩ := hnode
      constructor
      · rintro ⟨-, ⟨hadvance, -⟩ | ⟨hpanic, -⟩⟩
        · rw [hverdict] at hadvance
          contradiction
        · rw [hverdict] at hpanic
          contradiction
      · rintro ⟨points, h⟩
        contradiction
  | some points =>
      refine ⟨fun _ => ⟨points, rfl⟩, fun _ => ?_⟩
      cases hhurt : hurt? store.object.fields (damageOf args) with
      | none =>
          simp only [hpoints, hhurt] at hnode hcall
          obtain ⟨hstore, hverdict⟩ := hnode
          rw [hcall]
          exact ⟨congrArg Store.object hstore, .inr ⟨hverdict, rfl⟩⟩
      | some fields =>
          simp only [hpoints, hhurt] at hnode hcall
          obtain ⟨hstore, hverdict⟩ := hnode
          rw [hcall]
          exact ⟨congrArg Store.object hstore, .inl ⟨hverdict, rfl⟩⟩

end Gameplay

/-! ## Hits in a world -/

namespace World

open Gameplay

variable {w : World} {id : ObjectId} {o : Object}

structure PawnAt (w : World) (id : ObjectId) (o : Object) : Prop where
  object : w.object? id = some o
  className : o.className = pawnOnHit.className
  hits : TakesHits o
  native : ∃ c, w.classes.get? pawnOnHit.className = some c ∧ c.blueprint = none

theorem PawnAt.dispatch (h : w.PawnAt id o) (args : EventArgs) :
    let hit := w.dispatch id pawnOnHit.className pawnOnHit.event args
    match hurt? o.fields (damageOf args) with
    | none => hit.2 = .error .panicked ∧ hit.1.PawnAt id o
    | some fields =>
      hit.2 = .ok ⟨.native pawnOnHit.className, .completed, [], [hitNote (damageOf args)]⟩ ∧
      hit.1.PawnAt id { o with fields } := by
  intro hit
  obtain ⟨hobject, hclass, hhits, c, hget, hnative⟩ := h
  obtain ⟨entry, hentry, rfl⟩ := Option.map_eq_some_iff.1 hobject
  have hname : c.name = pawnOnHit.className := (ClassTable.mem_of_get? hget).2
  have hresponds : entry.object.responds pawnOnHit.event = true := by
    obtain ⟨exposed, natives, hnature, hexposed, -⟩ := hhits
    rw [Object.responds, hnature]
    exact hexposed
  have hconcerns : w.concerns entry.object pawnOnHit.className pawnOnHit.event = true := by
    rw [concerns, hclass, ClassTable.isA_refl, hresponds, Bool.true_or, Bool.true_and]
  have hcall := callNative_pawnOnHit hhits args
  have hchain := ClassTable.chain_of_get? hget
  rw [← hclass] at hchain
  simp only [hit, World.dispatch, hentry, hconcerns, if_true, hchain, offer, hnative, hname]
  cases hhurt : hurt? entry.object.fields (damageOf args) with
  | none =>
      simp only [hhurt] at hcall
      simp only [hcall]
      exact ⟨rfl, congrArg (Option.map Entry.object) (entry?_setEntry_self hentry _), hclass,
        hhits, c, hget, hnative⟩
  | some fields =>
      simp only [hhurt] at hcall
      simp only [hcall]
      exact ⟨rfl, congrArg (Option.map Entry.object) (entry?_setEntry_self hentry _), hclass,
        hhits, c, hget, hnative⟩

/-- A pawn that is hit again and again ends with its hit points less all damage, if what it is
left with fits in a word after every hit. -/
theorem PawnAt.points (h : w.PawnAt id o) {points : Int64}
    (hpoints : o.field? hitPoints = some (.int points)) {hits : List EventArgs}
    (hfits : ∀ earlier, earlier <+: hits →
      (word? (points.toInt - (earlier.map fun args => (damageOf args).toInt).sum)).isSome) :
    let after := w.performAll (hits.map (.dispatch id pawnOnHit.className pawnOnHit.event))
    ∃ left : Int64, (after.object? id).bind (·.field? hitPoints) = some (.int left) ∧
      left.toInt = points.toInt - (hits.map fun args => (damageOf args).toInt).sum := by
  induction hits generalizing w o points with
  | nil =>
      refine ⟨points, ?_, by simp⟩
      rw [List.map_nil, performAll, h.object, Option.bind_some, hpoints]
  | cons args rest ih =>
      have hpoints := pointsOf?_eq_some_iff.2 hpoints
      have hfirst : (hurt? o.fields (damageOf args)).isSome = true := by
        rw [isSome_hurt hpoints]
        simpa using hfits [args] (by simp)
      obtain ⟨fields, hhurt⟩ := Option.isSome_iff_exists.1 hfirst
      obtain ⟨left, hleft, hdiff⟩ := pointsOf?_hurt hpoints hhurt
      have hhit := h.dispatch args
      simp only [hhurt] at hhit
      have hlater : ∀ earlier, earlier <+: rest →
          (word? (left.toInt - (earlier.map fun args => (damageOf args).toInt).sum)).isSome := by
        intro earlier hearlier
        have := hfits (args :: earlier) (List.cons_prefix_cons.2 ⟨rfl, hearlier⟩)
        rwa [List.map_cons, List.sum_cons, ← Int.sub_sub, ← hdiff] at this
      obtain ⟨last, hlast, hsum⟩ := ih hhit.2 (pointsOf?_eq_some_iff.1 hleft) hlater
      refine ⟨last, hlast, ?_⟩
      rw [hsum, hdiff, List.map_cons, List.sum_cons, Int.sub_sub]

end World

end Nodeflow
