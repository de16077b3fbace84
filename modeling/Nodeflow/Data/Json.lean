import Nodeflow.Data.Basic
import Nodeflow.Json.Number
import Nodeflow.Json.Reader

/-!
# JSON as data

Numerals become integers or floats, and values are written back as documents.
-/

namespace Nodeflow

def Numeral.toData (n : Numeral) : Data :=
  match n.integer? with
  | some i => .int i
  | none =>
    match n.toDouble? with
    | some x => .float x
    | none => .unreadable

mutual

def Json.toData : Json → Data
  | .null => .null
  | .bool b => .bool b
  | .number n => n.toData
  | .string s => .text s
  | .array items => .list (Json.toDataList items)
  | .object members => .table (Json.toDataMembers members)

def Json.toDataList : List Json → List Data
  | [] => []
  | j :: rest => Json.toData j :: Json.toDataList rest

def Json.toDataMembers : List (String × Json) → List (String × Data)
  | [] => []
  | (key, j) :: rest => (key, Json.toData j) :: Json.toDataMembers rest

end

def jsonDepthLimit : Nat := 127

mutual

/-- The document of a value.  Infinities and NaN are saved as null. -/
def Value.toJson : Value → Json
  | .unit => .null
  | .bool b => .bool b
  | .int i => .ofInt i.toInt
  | .float x => .ofNumeral? (savedDoubleLayout.double? x)
  | .text s => .string s
  | .list items => .array (Value.toJsonList items)

def Value.toJsonList : List Value → List Json
  | [] => []
  | v :: rest => Value.toJson v :: Value.toJsonList rest

end

end Nodeflow
