import Nodeflow.Expr.Basic
import Nodeflow.Expr.Datum
import Nodeflow.Expr.Error
import Nodeflow.Number.Word

/-!
# Operators

Integer operations are exact or fail; operations with a float on either side are those
of doubles, except that comparisons allow for a relative rounding error.  Texts join
with every scalar.  Values of different types can be compared, and are then unequal and
unordered.
-/

namespace Nodeflow

/-! ## Integers -/

namespace IntOp

def checked (i : Int) (error : ArithmeticError) : Except EvalError Datum :=
  match word? i with
  | some w => .ok (.int w)
  | none => .error (.arithmetic error)

def divide (a b : Int64) : Except EvalError Datum :=
  if b = 0 then .error (.arithmetic (.divisionByZero a b))
  else checked (a.toInt.tdiv b.toInt) (.division a b)

/-- The remainder has the sign of the dividend; it fails where the quotient would. -/
def modulo (a b : Int64) : Except EvalError Datum :=
  if b = 0 ∨ (a = Int64.minValue ∧ b = -1) then .error (.arithmetic (.modulo a b))
  else .ok (.int (Int64.ofInt (a.toInt.tmod b.toInt)))

/-- No integer but zero, one and minus one has a 64th power within 64 bits. -/
def power (a b : Int64) : Except EvalError Datum :=
  if b.toInt ≥ UInt32.size then .error (.arithmetic (.power a b))
  else if b < 0 then .error (.arithmetic (.negativePower a b))
  else if a.toInt.natAbs ≤ 1 then
    .ok (.int (if a = -1 ∧ b.toInt % 2 = 0 ∨ b = 0 then 1 else a))
  else if b.toInt ≥ 64 then .error (.arithmetic (.power a b))
  else checked (Int.pow a.toInt b.toInt.toNat) (.power a b)

private def up (a : Int64) (count : Nat) : Int64 :=
  if 64 ≤ count then 0 else Int64.ofInt (a.toInt * Nat.pow 2 count)

private def down (a : Int64) (count : Nat) : Int64 :=
  if 64 ≤ count then (if a < 0 then -1 else 0) else Int64.ofInt (a.toInt / Nat.pow 2 count)

def shiftLeft (a count : Int64) : Int64 :=
  if count < 0 then down a count.toInt.natAbs else up a count.toInt.natAbs

def shiftRight (a count : Int64) : Int64 :=
  if count < 0 then up a count.toInt.natAbs else down a count.toInt.natAbs

def apply (op : BinaryOp) (a b : Int64) : Except EvalError Datum :=
  match op with
  | .add => checked (a.toInt + b.toInt) (.addition a b)
  | .subtract => checked (a.toInt - b.toInt) (.subtraction a b)
  | .multiply => checked (a.toInt * b.toInt) (.multiplication a b)
  | .divide => divide a b
  | .modulo => modulo a b
  | .power => power a b
  | .shiftLeft => .ok (.int (shiftLeft a b))
  | .shiftRight => .ok (.int (shiftRight a b))
  | .bitAnd => .ok (.int (a &&& b))
  | .bitOr => .ok (.int (a ||| b))
  | .bitXor => .ok (.int (a ^^^ b))
  | .equal => .ok (.bool (a == b))
  | .notEqual => .ok (.bool (a != b))
  | .less => .ok (.bool (a < b))
  | .lessEq => .ok (.bool (a ≤ b))
  | .greater => .ok (.bool (b < a))
  | .greaterEq => .ok (.bool (b ≤ a))

end IntOp

/-! ## Floats -/

namespace FloatOp

/-- The relative error two equal floats may differ by, two to the power of -52. -/
def tolerance : Float := Float.ofBits 0x3cb0000000000000

private def size (x : Float) : Float :=
  if x < 0 then -x else x

private def greaterSize (x y : Float) : Float :=
  if x.isNaN then size y
  else if y.isNaN then size x
  else if size x < size y then size y else size x

def scale (x y : Float) : Float :=
  if x * y == 0 then 1 else greaterSize x y

def result? (op : BinaryOp) (x y : Float) : Option Datum :=
  let ahead := (x - y) / scale x y
  let behind := (y - x) / scale x y
  match op with
  | .add => some (.float (x + y))
  | .subtract => some (.float (x - y))
  | .multiply => some (.float (x * y))
  | .divide => some (.float (x / y))
  | .modulo => some (.float (doubleRemainder x y))
  | .power => some (.float (x.pow y))
  | .equal => some (.bool (size (x - y) / scale x y ≤ tolerance))
  | .notEqual => some (.bool (size (x - y) / scale x y > tolerance))
  | .less => some (.bool (behind > tolerance))
  | .lessEq => some (.bool (behind > -tolerance))
  | .greater => some (.bool (ahead > tolerance))
  | .greaterEq => some (.bool (ahead > -tolerance))
  | .shiftLeft | .shiftRight | .bitAnd | .bitOr | .bitXor => none

end FloatOp

/-! ## Texts, bools and units -/

def dropPrefix? : List Char → List Char → Option (List Char)
  | [], cs => some cs
  | p :: ps, c :: cs => if p = c then dropPrefix? ps cs else none
  | _ :: _, [] => none

def removeAll (pattern : List Char) : Nat → List Char → List Char
  | 0, cs => cs
  | _, [] => []
  | fuel + 1, c :: cs =>
    match dropPrefix? pattern (c :: cs) with
    | some rest => removeAll pattern fuel rest
    | none => c :: removeAll pattern fuel cs

def textWithout (s pattern : String) : String :=
  if pattern.isEmpty then s
  else String.ofList (removeAll pattern.toList s.toList.length s.toList)

def comparison? (op : BinaryOp) (order : Ordering) : Option Bool :=
  match op with
  | .equal => some (order == .eq)
  | .notEqual => some (order != .eq)
  | .less => some (order == .lt)
  | .lessEq => some (order != .gt)
  | .greater => some (order == .gt)
  | .greaterEq => some (order != .lt)
  | _ => none

def incomparable? (op : BinaryOp) : Option Bool :=
  match op with
  | .notEqual => some true
  | .equal | .less | .lessEq | .greater | .greaterEq => some false
  | _ => none

private def charText (c : Char) : String :=
  String.ofList [c]

private def compared (op : BinaryOp) (s t : String) : Option Datum :=
  (comparison? op (compare s t)).map .bool

def textOp? (op : BinaryOp) (s t : String) (canRemove : Bool) : Option Datum :=
  match op with
  | .add => some (.text (s ++ t))
  | .subtract => if canRemove then some (.text (textWithout s t)) else none
  | op => compared op s t

def boolOp? (op : BinaryOp) (a b : Bool) : Option Datum :=
  match op with
  | .bitAnd => some (.bool (a && b))
  | .bitOr => some (.bool (a || b))
  | .bitXor => some (.bool (a != b))
  | op => (comparison? op (compare a b)).map .bool

def unitOp? : BinaryOp → Option Datum
  | .equal => some (.bool true)
  | .notEqual | .less | .lessEq | .greater | .greaterEq => some (.bool false)
  | _ => none

def joinedText? : Datum → Option String
  | .unit => some ""
  | .bool b => some (toString b)
  | .int i => some (toString i.toInt)
  | .float x => some (displayLayout.text x)
  | _ => none

def mixedOp? (op : BinaryOp) (a b : Datum) : Option Datum :=
  match op, a, b with
  | .add, .text s, d => (joinedText? d).map fun t => .text (s ++ t)
  | .add, d, .text s => (joinedText? d).map fun t => .text (t ++ s)
  | op, _, _ => (incomparable? op).map .bool

namespace BinaryOp

def partial? (op : BinaryOp) (a b : Datum) : Option Datum :=
  match a, b with
  | .float x, .float y => FloatOp.result? op x y
  | .int i, .float y => FloatOp.result? op (widen i) y
  | .float x, .int i => FloatOp.result? op x (widen i)
  | .text s, .text t => textOp? op s t true
  | .text s, .char c => textOp? op s (charText c) true
  | .char c, .text t => textOp? op (charText c) t false
  | .char c, .char d => textOp? op (charText c) (charText d) false
  | .bool p, .bool q => boolOp? op p q
  | .unit, .unit => unitOp? op
  | .array _, .array _ => none
  | .map _, .map _ => none
  | a, b => mixedOp? op a b

def apply (op : BinaryOp) (a b : Datum) : Except EvalError Datum :=
  match a, b with
  | .int i, .int j => IntOp.apply op i j
  | a, b =>
    match op.partial? a b with
    | some d => .ok d
    | none => .error (.unknownFunction op.text [a.paramTypeName, b.paramTypeName])

end BinaryOp

def UnaryOp.apply (op : UnaryOp) (d : Datum) : Except EvalError Datum :=
  match op, d with
  | .negate, .int i =>
    if i = Int64.minValue then .error (.arithmetic (.negation i)) else .ok (.int (-i))
  | .negate, .float x => .ok (.float (-x))
  | .not, .bool b => .ok (.bool !b)
  | op, d => .error (.unknownFunction op.text [d.paramTypeName])

/-! ## Looking inside -/

/-- The offset of an index into `size` elements; a negative index counts from the end. -/
def offset? (index : Int64) (size : Nat) : Option Nat :=
  let i := index.toInt
  let i := if i < 0 then i + size else i
  if 0 ≤ i ∧ i < size then some i.toNat else none

namespace Datum

def member (d : Datum) (name : String) : Except EvalError Datum :=
  match d with
  | .map entries => .ok (((entries.find? fun e => e.1 == name).map Prod.snd).getD .unit)
  | d => .error (.unknownProperty name d.typeName)

private def integerKey (key : Datum) (element : Int64 → Except EvalError Datum) :
    Except EvalError Datum :=
  match key with
  | .int i => element i
  | key => .error (.wrongType key.typeName "i64")

/-- An element of an array, a character of a text, an entry of a map or a bit of an
integer. -/
def index (d key : Datum) : Except EvalError Datum :=
  match d with
  | .array items => integerKey key fun i =>
    match (offset? i items.length).bind (items[·]?) with
    | some item => .ok item
    | none => .error (.arrayBounds i items.length)
  | .text s => integerKey key fun i =>
    let cs := s.toList
    match (offset? i cs.length).bind (cs[·]?) with
    | some c => .ok (.char c)
    | none => .error (.textBounds i cs.length)
  | .map _ =>
    match key with
    | .text name => d.member name
    | key => .error (.wrongType key.typeName "string")
  | .int bits => integerKey key fun i =>
    match offset? i 64 with
    | some k => .ok (.bool ((bits.toInt / Nat.pow 2 k) % 2 == 1))
    | none => .error (.bitBounds i)
  | d => .error (.notIndexable d.typeName key.typeName)

end Datum

end Nodeflow
