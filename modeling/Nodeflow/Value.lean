import Nodeflow.NameMap
import Nodeflow.Number.Decimal

/-!
# Values

The values that flow through parameters, local names, graph variables and object
fields.  Integers are 64 bits wide and floats are doubles; an integer is accepted
wherever a float is asked for, never the other way round.
-/

namespace Nodeflow

inductive Value where
  | unit
  | bool (b : Bool)
  | int (i : Int64)
  | float (x : Float)
  | text (s : String)
  | list (items : List Value)
  deriving Inhabited

mutual

def Value.decEq : (a b : Value) → Decidable (a = b)
  | .unit, .unit => isTrue rfl
  | .bool a, .bool b => decidable_of_iff (a = b) (by simp)
  | .int a, .int b => decidable_of_iff (a = b) (by simp)
  | .float a, .float b => decidable_of_iff (a = b) (by simp)
  | .text a, .text b => decidable_of_iff (a = b) (by simp)
  | .list a, .list b =>
    have := Value.decEqList a b
    decidable_of_iff (a = b) (by simp)
  | .unit, .bool _ | .unit, .int _ | .unit, .float _ | .unit, .text _ | .unit, .list _
  | .bool _, .unit | .bool _, .int _ | .bool _, .float _ | .bool _, .text _ | .bool _, .list _
  | .int _, .unit | .int _, .bool _ | .int _, .float _ | .int _, .text _ | .int _, .list _
  | .float _, .unit | .float _, .bool _ | .float _, .int _ | .float _, .text _ | .float _, .list _
  | .text _, .unit | .text _, .bool _ | .text _, .int _ | .text _, .float _ | .text _, .list _
  | .list _, .unit | .list _, .bool _ | .list _, .int _ | .list _, .float _ | .list _, .text _ =>
    isFalse nofun

def Value.decEqList : (xs ys : List Value) → Decidable (xs = ys)
  | [], [] => isTrue rfl
  | x :: xs, y :: ys =>
    have := Value.decEq x y
    have := Value.decEqList xs ys
    decidable_of_iff (x = y ∧ xs = ys) (by simp)
  | [], _ :: _ | _ :: _, [] => isFalse nofun

end

instance : DecidableEq Value := Value.decEq

inductive ValueType where
  | unit
  | bool
  | int
  | float
  | text
  | list
  deriving DecidableEq, Repr

def ValueType.name : ValueType → String
  | .unit => "Unit"
  | .bool => "Bool"
  | .int => "Int"
  | .float => "Float"
  | .text => "String"
  | .list => "List"

def widen (i : Int64) : Float :=
  doubleOfInt i.toInt

namespace Value

def type : Value → ValueType
  | .unit => .unit
  | .bool _ => .bool
  | .int _ => .int
  | .float _ => .float
  | .text _ => .text
  | .list _ => .list

/-! ## Reading a value as one type -/

def asBool? : Value → Option Bool
  | .bool b => some b
  | _ => none

def asInt? : Value → Option Int64
  | .int i => some i
  | _ => none

def asFloat? : Value → Option Float
  | .float x => some x
  | .int i => some (widen i)
  | _ => none

def asText? : Value → Option String
  | .text s => some s
  | _ => none

def asList? : Value → Option (List Value)
  | .list items => some items
  | _ => none

/-! ## Equality

Two comparisons are in use.  `equals` keeps the variants apart and compares floats as
numbers, so no value holding a NaN equals itself; `looselyEquals` also lets an integer
equal the float it widens to.
-/

mutual

def equals : Value → Value → Bool
  | .unit, .unit => true
  | .bool a, .bool b => a == b
  | .int a, .int b => a == b
  | .float x, .float y => x == y
  | .text s, .text t => s == t
  | .list xs, .list ys => equalsList xs ys
  | _, _ => false

def equalsList : List Value → List Value → Bool
  | [], [] => true
  | x :: xs, y :: ys => equals x y && equalsList xs ys
  | _, _ => false

end

mutual

def looselyEquals : Value → Value → Bool
  | .int a, .float y => widen a == y
  | .float x, .int b => widen b == x
  | .unit, .unit => true
  | .bool a, .bool b => a == b
  | .int a, .int b => a == b
  | .float x, .float y => x == y
  | .text s, .text t => s == t
  | .list xs, .list ys => looselyEqualsList xs ys
  | _, _ => false

def looselyEqualsList : List Value → List Value → Bool
  | [], [] => true
  | x :: xs, y :: ys => looselyEquals x y && looselyEqualsList xs ys
  | _, _ => false

end

/-! ## Text -/

mutual

def display : Value → String
  | .unit => "()"
  | .bool b => toString b
  | .int i => toString i.toInt
  | .float x => displayLayout.text x
  | .text s => s
  | .list items => "[" ++ displayItems items ++ "]"

def displayItems : List Value → String
  | [] => ""
  | [x] => display x
  | x :: y :: rest => display x ++ ", " ++ displayItems (y :: rest)

end

end Value

abbrev Variables := NameMap Value

abbrev EventArgs := NameMap Value

end Nodeflow
