import Nodeflow.Capability.Call

/-!
# Built-in capabilities

Branching, printing, writing variables and fields, and waiting.
-/

namespace Nodeflow.Builtin

def blank (id : String) (category : Category) (description : String) : Descriptor where
  id
  category
  description
  params := []
  slots := []
  latent := false
  method := false
  produces := []

/-! ## Flow control -/

def branch : Capability where
  descriptor :=
    { blank "Branch" .flowControl "Executes one of two paths based on a boolean condition." with
      params := [⟨"condition", .bool⟩]
      slots := [⟨"true", .oneOf [.bool true]⟩, ⟨"false", .oneOf [.bool false]⟩] }
  invoke := do
    let condition ← Call.bool "condition"
    pure (.done (.bool condition))

def threeWay (a b : Float) : Value :=
  if a < b then .int (-1)
  else if a == b then .int 0
  else if a > b then .int 1
  else .unit

def compare : Capability where
  descriptor :=
    { blank "Compare" .flowControl
        "Compares two numbers and continues on less, equal or greater." with
      params := [⟨"a", .float⟩, ⟨"b", .float⟩]
      slots :=
        [ ⟨"less", .oneOf [.int (-1)]⟩, ⟨"equal", .oneOf [.int 0]⟩
        , ⟨"greater", .oneOf [.int 1]⟩ ] }
  invoke := do
    let a ← Call.float "a"
    let b ← Call.float "b"
    pure (.done (threeWay a b))

/-! ## Utilities -/

def print : Capability where
  descriptor :=
    { blank "Print" .utility "Prints a value to the output log." with
      params := [⟨"text", .expression⟩] }
  invoke := do
    let value ← Call.arg "text"
    Call.print value.display
    pure (.done .unit)

/-! ## Variables -/

def setVariable : Capability where
  descriptor :=
    { blank "SetVariable" .variable "Sets the value of a graph variable." with
      params := [⟨"name", .text⟩, ⟨"value", .expression⟩]
      produces := [⟨"value", .expression⟩] }
  invoke := do
    let name ← Call.text "name"
    let value ← Call.arg "value"
    Call.setVariable name value
    pure (.done value)

def setLocal : Capability where
  descriptor :=
    { blank "SetLocal" .variable "Binds a name for the rest of this event." with
      params := [⟨"name", .text⟩, ⟨"value", .expression⟩]
      produces := [⟨"value", .expression⟩] }
  invoke := do
    let name ← Call.text "name"
    let value ← Call.arg "value"
    Call.setLocal name value
    pure (.done value)

/-! ## The owning object -/

def setField : Capability where
  descriptor :=
    { blank "SetField" .gameplay "Sets a field on the object that owns this graph." with
      params := [⟨"field", .text⟩, ⟨"value", .expression⟩]
      method := true }
  invoke := do
    let field ← Call.text "field"
    let value ← Call.arg "value"
    Call.setField field value
    pure (.done .unit)

/-! ## Waiting -/

def delay : Capability where
  descriptor :=
    { blank "Delay" .latent "Waits for a number of seconds before continuing." with
      params := [⟨"seconds", .float⟩]
      latent := true }
  invoke := do
    let seconds ← Call.float "seconds"
    pure (.suspend .unit (.delay (singleOfDouble seconds)))

def nextTick : Capability where
  descriptor :=
    { blank "NextTick" .latent "Continues on the next tick." with
      latent := true }
  invoke := pure (.suspend .unit .nextTick)

def frameCount? (i : Int64) : Option Nat :=
  if 0 ≤ i.toInt ∧ i.toInt < UInt32.size then some i.toInt.toNat else none

def waitFrames : Capability where
  descriptor :=
    { blank "WaitFrames" .latent "Waits for a number of ticks before continuing." with
      params := [⟨"frames", .int⟩]
      latent := true }
  invoke := do
    let frames ← Call.int "frames"
    match frameCount? frames with
    | some count => pure (.suspend .unit (.frames count))
    | none => throw (.argumentType "frames" "a non-negative int")

def all : List Capability :=
  [branch, compare, print, setVariable, setLocal, setField, delay, nextTick, waitFrames]

end Nodeflow.Builtin
