import Nodeflow.ParamType

/-!
# Why an expression fails

Causes are kept apart from their wording, which is the business of `message`.
-/

namespace Nodeflow

inductive ArithmeticError where
  | addition (a b : Int64)
  | subtraction (a b : Int64)
  | multiplication (a b : Int64)
  | divisionByZero (a b : Int64)
  | division (a b : Int64)
  | modulo (a b : Int64)
  | negativePower (a b : Int64)
  | power (a b : Int64)
  | negation (a : Int64)
  deriving DecidableEq

def ArithmeticError.message : ArithmeticError → String
  | .addition a b => infixed "Addition overflow" a "+" b
  | .subtraction a b => infixed "Subtraction overflow" a "-" b
  | .multiplication a b => infixed "Multiplication overflow" a "*" b
  | .divisionByZero a b => infixed "Division by zero" a "/" b
  | .division a b => infixed "Division overflow" a "/" b
  | .modulo a b => infixed "Modulo division by zero or overflow" a "%" b
  | .negativePower a b => infixed "Integer raised to a negative power" a "**" b
  | .power a b => infixed "Exponential overflow" a "**" b
  | .negation a => "Negation overflow: -" ++ toString a.toInt
where
  infixed (what : String) (a : Int64) (op : String) (b : Int64) : String :=
    what ++ ": " ++ toString a.toInt ++ " " ++ op ++ " " ++ toString b.toInt

inductive EvalError where
  | tooManyOperations
  | unknownName (name : String)
  | arithmetic (error : ArithmeticError)
  | unknownFunction (name : String) (types : List String)
  | wrongType (actual expected : String)
  | unknownProperty (name type : String)
  | arrayBounds (index : Int64) (size : Nat)
  | textBounds (index : Int64) (size : Nat)
  | bitBounds (index : Int64)
  | notIndexable (type key : String)
  deriving DecidableEq

def EvalError.message : EvalError → String
  | .tooManyOperations => "Too many operations"
  | .unknownName name => "Variable not found: " ++ name
  | .arithmetic error => error.message
  | .unknownFunction name types =>
    "Function not found: " ++ name ++ " (" ++ ", ".intercalate types ++ ")"
  | .wrongType actual expected =>
    "Data type incorrect: " ++ actual ++ " (expecting " ++ expected ++ ")"
  | .unknownProperty name type =>
    "Unknown property '" ++ name ++ "' - a getter is not registered for type '" ++ type ++ "'"
  | .arrayBounds index size => bounds "Array" index ++ inArray size
  | .textBounds index size => bounds "String" index ++ inText size
  | .bitBounds index => bounds "Bit-field" index ++ "only 64 bits in bit-field"
  | .notIndexable type key => "Indexer unavailable: " ++ type ++ " [" ++ key ++ "]"
where
  bounds (what : String) (index : Int64) : String :=
    what ++ " index " ++ toString index.toInt ++ " out of bounds: "
  inArray : Nat → String
    | 0 => "array is empty"
    | 1 => "only 1 element in array"
    | n => "only " ++ toString n ++ " elements in array"
  inText : Nat → String
    | 0 => "string is empty"
    | 1 => "only 1 character in string"
    | n => "only " ++ toString n ++ " characters in string"

inductive ExprError where
  /-- The text is no expression.  The reader's own words and positions are not kept. -/
  | parse
  | eval (error : EvalError)
  | unsupported (type : String)
  | mismatch (why : TypeMismatch)
  deriving DecidableEq

def ExprError.message : ExprError → String
  | .parse => "parse error"
  | .eval error => "evaluation error: " ++ error.message
  | .unsupported type => "expression produced an unsupported value of type `" ++ type ++ "`"
  | .mismatch why => "type mismatch: " ++ why.message

end Nodeflow
