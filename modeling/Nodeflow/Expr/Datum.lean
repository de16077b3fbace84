import Nodeflow.Text.Quoted
import Nodeflow.Value

/-!
# What expressions compute with

Inside an expression there are two more kinds of value: single characters, and maps,
through which the fields of the owning object are seen.  Neither leaves the expression.
-/

namespace Nodeflow

inductive Datum where
  | unit
  | bool (b : Bool)
  | int (i : Int64)
  | float (x : Float)
  | text (s : String)
  | char (c : Char)
  | array (items : List Datum)
  | map (entries : List (String × Datum))
  deriving Inhabited

namespace Datum

/-! ## Values in and out -/

mutual

def ofValue : Value → Datum
  | .unit => .unit
  | .bool b => .bool b
  | .int i => .int i
  | .float x => .float x
  | .text s => .text s
  | .list items => .array (ofValueList items)

def ofValueList : List Value → List Datum
  | [] => []
  | v :: rest => ofValue v :: ofValueList rest

end

def ofFields (fields : NameMap Value) : Datum :=
  .map (fields.toList.map fun e => (e.1, ofValue e.2))

mutual

def toValue? : Datum → Option Value
  | .unit => some .unit
  | .bool b => some (.bool b)
  | .int i => some (.int i)
  | .float x => some (.float x)
  | .text s => some (.text s)
  | .char _ => none
  | .array items => (toValueList? items).map .list
  | .map _ => none

def toValueList? : List Datum → Option (List Value)
  | [] => some []
  | d :: rest => do
    let v ← toValue? d
    let vs ← toValueList? rest
    some (v :: vs)

end

mutual

@[simp] theorem toValue?_ofValue (v : Value) : toValue? (ofValue v) = some v := by
  cases v with
  | list items => simp [ofValue, toValue?, toValueList?_ofValueList items]
  | _ => rfl

@[simp] theorem toValueList?_ofValueList (vs : List Value) :
    toValueList? (ofValueList vs) = some vs := by
  cases vs with
  | nil => rfl
  | cons v rest => simp [ofValueList, toValueList?, toValue?_ofValue v, toValueList?_ofValueList rest]

end

/-! ## Names of types -/

def typeName : Datum → String
  | .unit => "()"
  | .bool _ => "bool"
  | .int _ => "i64"
  | .float _ => "f64"
  | .text _ => "string"
  | .char _ => "char"
  | .array _ => "array"
  | .map _ => "map"

def paramTypeName : Datum → String
  | .text _ => "&str | ImmutableString | String"
  | d => d.typeName

/-! ## Text inside templates

At the top of a hole texts and characters stand as they are and unit leaves no trace;
inside a collection everything is dumped.
-/

/-- Floats in a hole keep their point and leave the positional form outside `1e-7` to
`1e13`. -/
def floatInHole (x : Float) : String :=
  let size := if x < 0 then -x else x
  if size == 0 then "0.0"
  else if size > 1e13 || size < 1e-7 then holeExponent.text x
  else holePlain.text x
where
  holePlain : DecimalLayout := ⟨none, true, false, true⟩
  holeExponent : DecimalLayout := ⟨some (0, 0), false, false, true⟩

mutual

def dump : Datum → String
  | .unit => "()"
  | .bool b => toString b
  | .int i => toString i.toInt
  | .float x => dumpLayout.text x
  | .text s => dumpText s
  | .char c => "'" ++ String.ofList (dumpChar '\'' c) ++ "'"
  | .array items => "[" ++ dumpItems items ++ "]"
  | .map entries => "#\x7b" ++ dumpEntries entries ++ "\x7d"

def dumpItems : List Datum → String
  | [] => ""
  | [d] => dump d
  | d :: next :: rest => dump d ++ ", " ++ dumpItems (next :: rest)

def dumpEntries : List (String × Datum) → String
  | [] => ""
  | [(name, d)] => dumpText name ++ ": " ++ dump d
  | (name, d) :: next :: rest =>
    dumpText name ++ ": " ++ dump d ++ ", " ++ dumpEntries (next :: rest)

end

def inHole : Datum → String
  | .unit => ""
  | .text s => s
  | .char c => String.ofList [c]
  | .float x => floatInHole x
  | d => d.dump

end Datum

end Nodeflow
