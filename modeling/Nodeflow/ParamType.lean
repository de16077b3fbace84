import Nodeflow.Value

/-!
# Types of parameters

A parameter declares what it accepts.  Integers widen to floats; nothing narrows.
-/

namespace Nodeflow

inductive ParamType where
  | int
  | float
  | bool
  | text
  | list
  | tuple (size : Nat)
  | expression
  deriving DecidableEq, Repr

def ParamType.name : ParamType → String
  | .int => "int"
  | .float => "float"
  | .bool => "bool"
  | .text => "string"
  | .list => "list"
  | .tuple size => "tuple[" ++ toString size ++ "]"
  | .expression => "expression"

inductive TypeMismatch where
  | wrongType (expected : ParamType) (actual : ValueType)
  | wrongSize (expected actual : Nat)
  deriving DecidableEq, Repr

def TypeMismatch.message : TypeMismatch → String
  | .wrongType expected actual => "expected " ++ expected.name ++ ", got " ++ actual.name
  | .wrongSize expected actual =>
    "expected " ++ (ParamType.tuple expected).name ++ ", got " ++ toString actual ++ " elements"

namespace ParamType

def coerce (type : ParamType) (value : Value) : Except TypeMismatch Value :=
  match type, value with
  | .expression, v => .ok v
  | .int, .int i => .ok (.int i)
  | .float, .float x => .ok (.float x)
  | .float, .int i => .ok (.float (widen i))
  | .bool, .bool b => .ok (.bool b)
  | .text, .text s => .ok (.text s)
  | .list, .list items => .ok (.list items)
  | .tuple size, .list items =>
    if items.length = size then .ok (.list items) else .error (.wrongSize size items.length)
  | type, v => .error (.wrongType type v.type)

end ParamType

end Nodeflow
