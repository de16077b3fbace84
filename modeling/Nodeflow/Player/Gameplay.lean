import Nodeflow.Capability.Builtin
import Nodeflow.Number.Word

/-!
# Gameplay

The capabilities and the native behaviour that the player adds for actors with hit
points, which they keep in the field `hp`.
-/

namespace Nodeflow.Gameplay

def hitPoints : String := "hp"

/-- Hit points as an integer; a field that is missing or holds no integer has none. -/
def pointsOf? (fields : NameMap Value) : Option Int64 :=
  (fields.find? hitPoints).bind Value.asInt?

/-- Hit points less damage, if the difference is an integer that can be kept. -/
def lowered? (points damage : Int64) : Option Int64 :=
  word? (points.toInt - damage.toInt)

def applyDamage : Capability where
  descriptor :=
    { Builtin.blank "ApplyDamage" .gameplay
        "Subtracts `amount` from the owner's hp unless it is invulnerable." with
      params := [⟨"amount", .int⟩]
      slots := [⟨"success", .oneOf [.bool true]⟩, ⟨"fail", .oneOf [.bool false]⟩]
      method := true }
  invoke := do
    let amount ← Call.int "amount"
    let owner ← Call.owner
    if owner.field? "invulnerable" = some (.bool true) then pure (.done (.bool false))
    else
      match pointsOf? owner.fields with
      | none => throw (.unknownField hitPoints)
      | some points =>
        match lowered? points amount with
        | none => pure .panic
        | some left =>
          Call.setField hitPoints (.int left)
          pure (.done (.bool true))

def playEffect : Capability where
  descriptor :=
    { Builtin.blank "PlayEffect" .gameplay "Plays a named visual effect." with
      params := [⟨"effect", .text⟩] }
  invoke := do
    let effect ← Call.text "effect"
    Call.print ("*" ++ effect ++ "*")
    pure (.done .unit)

def isAlive : Capability where
  descriptor :=
    { Builtin.blank "IsAlive" .gameplay
        "Continues on `alive` while the owner's hp is above zero." with
      slots := [⟨"alive", .oneOf [.bool true]⟩, ⟨"dead", .oneOf [.bool false]⟩]
      method := true }
  invoke := do
    let owner ← Call.owner
    let points := (pointsOf? owner.fields).getD 0
    pure (.done (.bool (0 < points)))

def all : List Capability :=
  [applyDamage, playEffect, isAlive]

/-! ## Native behaviour -/

def pawnOnHit : Native where
  className := "Pawn"
  event := "onHit"
  handler :=
    { memory := .unit
      body := fun memory fields args =>
        let damage := ((args.find? "damage").bind Value.asInt?).getD 0
        let points := (pointsOf? fields).getD 0
        match lowered? points damage with
        | none => (memory, fields, none)
        | some left =>
          ( memory
          , fields.insert hitPoints (.int left)
          , some ["Pawn took " ++ toString damage.toInt ++ " damage natively"] ) }

def withBehaviour (o : Object) (className : String) : Object :=
  if className = pawnOnHit.className then o.withNative pawnOnHit else o

end Nodeflow.Gameplay
