import Nodeflow.Capability.Error
import Nodeflow.Text.Quoted
import Nodeflow.Value

/-!
# Objects

An object has a class and fields.  Most objects are actors, whose fields can all be
set, which answer the events they expose, and which carry native handlers for some
classes and events.  Any other make of object brings rules of its own and a memory
that only its rules see.
-/

namespace Nodeflow

/-! ## Handles -/

/-- A handle to an object: a slot, and how often the slot had been emptied when the
object moved in. -/
structure ObjectId where
  index : UInt32
  generation : UInt32
  deriving DecidableEq, Repr

def ObjectId.display (id : ObjectId) : String :=
  toString id.index.toNat ++ "v" ++ toString id.generation.toNat

/-! ## Native handlers -/

/-- A native implementation of one event for one class.  It works on the fields, and
keeps a memory between its runs.  It has notes for a reader, unless it panics. -/
structure NativeHandler where
  memory : Value
  body : Value → NameMap Value → EventArgs → Value × NameMap Value × Option (List String)

structure Native where
  className : String
  event : String
  handler : NativeHandler

def Native.isFor (n : Native) (className event : String) : Bool :=
  n.className == className && n.event == event

/-! ## Objects -/

inductive NativeResult where
  | missing
  | handled
  | panicked
  deriving DecidableEq

structure Body where
  className : String
  fields : NameMap Value
  memory : Value

/-- How an object that is no actor behaves.  It may change its class like all else. -/
structure Rules where
  responds : Body → String → Bool
  setField : Body → String → Value → Body × Except CapabilityError Unit
  native : Body → String → String → EventArgs → Body × NativeResult

inductive Nature where
  | actor (exposed : NameMap Unit) (natives : List Native)
  | custom (memory : Value) (rules : Rules)

structure Object where
  className : String
  fields : NameMap Value
  nature : Nature

def Body.object (b : Body) (rules : Rules) : Object :=
  ⟨b.className, b.fields, .custom b.memory rules⟩

namespace Object

def actor (className : String) : Object :=
  ⟨className, ∅, .actor ∅ []⟩

def isActor (o : Object) : Bool :=
  match o.nature with
  | .actor _ _ => true
  | .custom _ _ => false

def responds (o : Object) (event : String) : Bool :=
  match o.nature with
  | .actor exposed _ => exposed.contains event
  | .custom memory rules => rules.responds ⟨o.className, o.fields, memory⟩ event

def field? (o : Object) (name : String) : Option Value :=
  o.fields.find? name

/-- Sets a field; the object is as the second part says even where this fails. -/
def setField (o : Object) (name : String) (value : Value) : Except CapabilityError Unit × Object :=
  match o.nature with
  | .actor _ _ => (.ok (), { o with fields := o.fields.insert name value })
  | .custom memory rules =>
    let (body, result) := rules.setField ⟨o.className, o.fields, memory⟩ name value
    (result, body.object rules)

/-! ## Native events -/

structure NativeCall where
  object : Object
  result : NativeResult
  notes : List String

/-- Runs the first handler for a class and event, in its place in the list. -/
def runNative (className event : String) (fields : NameMap Value) (args : EventArgs) :
    List Native → Option (List Native × NameMap Value × Option (List String))
  | [] => none
  | n :: rest =>
    if n.isFor className event then
      let (memory, fields, notes) := n.handler.body n.handler.memory fields args
      some ({ n with handler := { n.handler with memory } } :: rest, fields, notes)
    else
      (runNative className event fields args rest).map fun (rest, result) => (n :: rest, result)

def callNative (o : Object) (className event : String) (args : EventArgs) : NativeCall :=
  match o.nature with
  | .actor exposed natives =>
    match runNative className event o.fields args natives with
    | some (natives, fields, some notes) =>
      ⟨{ o with fields, nature := .actor exposed natives }, .handled, notes⟩
    | some (natives, fields, none) =>
      ⟨{ o with fields, nature := .actor exposed natives }, .panicked, []⟩
    | none => ⟨o, .missing, []⟩
  | .custom memory rules =>
    let (body, result) := rules.native ⟨o.className, o.fields, memory⟩ className event args
    ⟨body.object rules, result, []⟩

/-! ## Building actors -/

def withField (o : Object) (name : String) (value : Value) : Object :=
  { o with fields := o.fields.insert name value }

def exposing (o : Object) (event : String) : Object :=
  match o.nature with
  | .actor exposed natives => { o with nature := .actor (exposed.insert event ()) natives }
  | .custom _ _ => o

def placeNative (n : Native) : List Native → List Native
  | [] => [n]
  | m :: rest => if m.isFor n.className n.event then n :: rest else m :: placeNative n rest

def withNative (o : Object) (n : Native) : Object :=
  match o.nature with
  | .actor exposed natives =>
    { o with nature := .actor (exposed.insert n.event ()) (placeNative n natives) }
  | .custom _ _ => o

end Object

/-! ## Structural dump -/

mutual

def Value.dump : Value → String
  | .unit => "Unit"
  | .bool b => "Bool(" ++ toString b ++ ")"
  | .int i => "Int(" ++ toString i.toInt ++ ")"
  | .float x => "Float(" ++ dumpLayout.text x ++ ")"
  | .text s => "String(" ++ dumpText s ++ ")"
  | .list items => "List([" ++ Value.dumpItems items ++ "])"

def Value.dumpItems : List Value → String
  | [] => ""
  | [v] => Value.dump v
  | v :: next :: rest => Value.dump v ++ ", " ++ Value.dumpItems (next :: rest)

end

private def bracedList (entries : List String) : String :=
  "\x7b" ++ ", ".intercalate entries ++ "\x7d"

def Object.dump? (o : Object) : Option String :=
  match o.nature with
  | .custom _ _ => none
  | .actor exposed _ =>
    let fields := o.fields.toList.map fun e => dumpText e.1 ++ ": " ++ e.2.dump
    some ("Actor \x7b class: " ++ dumpText o.className ++ ", fields: " ++ bracedList fields
      ++ ", exposed: " ++ bracedList (exposed.keys.map dumpText) ++ ", .. \x7d")

end Nodeflow
