import Nodeflow.Capability.Descriptor
import Nodeflow.Capability.Error
import Nodeflow.Latent.Condition
import Nodeflow.Object
import Nodeflow.Scope

/-!
# Calls of capabilities

A capability is a function of the context it is called in.  It may print, bind local
names, write graph variables and, if it is a method, work on the owning object; what it
did before it failed or panicked stays done.
-/

namespace Nodeflow

/-- What a call sees and may change. -/
structure CallContext where
  capability : String
  args : List (String × Value)
  owner : Option Object
  scope : LocalScope
  vars : Variables
  printed : List String

abbrev Call := ExceptT CapabilityError (StateM CallContext)

/-- What a call comes to. -/
inductive Invocation where
  | done (value : Value)
  | suspend (value : Value) (condition : Condition)
  /-- The call does not come back, and neither does whoever called it. -/
  | panic

def Invocation.value? : Invocation → Option Value
  | .done v => some v
  | .suspend v _ => some v
  | .panic => none

structure Capability where
  descriptor : Descriptor
  invoke : Call Invocation

namespace Call

/-! ## Arguments -/

def arg (name : String) : Call Value := do
  match (← get).args.find? fun a => a.1 == name with
  | some a => pure a.2
  | none => throw (.missingArgument name)

def argAs {α : Type} (name expected : String) (read : Value → Option α) : Call α := do
  match read (← arg name) with
  | some a => pure a
  | none => throw (.argumentType name expected)

def int (name : String) : Call Int64 :=
  argAs name "an int" Value.asInt?

def float (name : String) : Call Float :=
  argAs name "a float" Value.asFloat?

def bool (name : String) : Call Bool :=
  argAs name "a bool" Value.asBool?

def text (name : String) : Call String :=
  argAs name "a string" Value.asText?

def list (name : String) : Call (List Value) :=
  argAs name "a list" Value.asList?

/-! ## Effects -/

def owner : Call Object := do
  match (← get).owner with
  | some o => pure o
  | none => throw .noObject

def print (line : String) : Call Unit :=
  modify fun c => { c with printed := c.printed ++ [line] }

def setLocal (name : String) (value : Value) : Call Unit :=
  modify fun c => { c with scope := c.scope.insert name value }

def removeLocal (name : String) : Call Unit :=
  modify fun c => { c with scope := c.scope.erase name }

def setVariable (name : String) (value : Value) : Call Unit :=
  modify fun c => { c with vars := c.vars.insert name value }

def setField (name : String) (value : Value) : Call Unit := do
  let (result, o) := (← owner).setField name value
  modify fun c => { c with owner := some o }
  liftExcept result
where
  liftExcept : Except CapabilityError Unit → Call Unit
    | .ok () => pure ()
    | .error e => throw e

end Call

end Nodeflow
