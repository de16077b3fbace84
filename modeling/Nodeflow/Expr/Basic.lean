/-!
# Expressions

The tree of a parameter expression.  An access keeps its whole path in one node,
because the arguments along a path are evaluated before its root is looked at.
-/

namespace Nodeflow

inductive Literal where
  | unit
  | bool (b : Bool)
  | int (i : Int64)
  | float (x : Float)
  | text (s : String)
  | char (c : Char)
  deriving DecidableEq, Inhabited

inductive UnaryOp where
  | plus
  | negate
  | not
  deriving DecidableEq, Repr

def UnaryOp.text : UnaryOp → String
  | .plus => "+"
  | .negate => "-"
  | .not => "!"

inductive BinaryOp where
  | add | subtract | multiply | divide | modulo | power
  | shiftLeft | shiftRight
  | bitAnd | bitOr | bitXor
  | equal | notEqual | less | lessEq | greater | greaterEq
  deriving DecidableEq, Repr

def BinaryOp.text : BinaryOp → String
  | .add => "+"
  | .subtract => "-"
  | .multiply => "*"
  | .divide => "/"
  | .modulo => "%"
  | .power => "**"
  | .shiftLeft => "<<"
  | .shiftRight => ">>"
  | .bitAnd => "&"
  | .bitOr => "|"
  | .bitXor => "^"
  | .equal => "=="
  | .notEqual => "!="
  | .less => "<"
  | .lessEq => "<="
  | .greater => ">"
  | .greaterEq => ">="

mutual

inductive Expr where
  | literal (l : Literal)
  | name (n : String)
  | array (items : List Expr)
  | map (entries : List (String × Expr))
  | template (parts : List Expr)
  | unary (op : UnaryOp) (operand : Expr)
  | binary (op : BinaryOp) (left right : Expr)
  | both (left right : Expr)
  | either (left right : Expr)
  | coalesce (left right : Expr)
  | call (function : String) (args : List Expr)
  | access (root : Expr) (path : List Access)

/-- One step of an access; a `safe` step from unit ends the access at unit. -/
inductive Access where
  | member (name : String) (safe : Bool)
  | index (key : Expr) (safe : Bool)
  | method (name : String) (args : List Expr) (safe : Bool)

end

instance : Inhabited Expr := ⟨.literal .unit⟩

namespace Expr

def neverBool : Expr → Bool
  | .literal (.bool _) => false
  | .literal _ => true
  | .array _ => true
  | .map _ => true
  | .template _ => true
  | _ => false

/-- Whether a written index can never be one of the written container. -/
def neverIndexes (container key : Expr) : Bool :=
  match container, key with
  | .map _, .literal (.text _) => false
  | .map _, .literal _ => true
  | .map _, .both _ _ => true
  | .map _, .either _ _ => true
  | .literal (.int _), key => notNumeric key
  | .literal (.text _), key => notNumeric key
  | .array _, key => notNumeric key
  | .template _, key => notNumeric key
  | _, _ => false
where
  notNumeric : Expr → Bool
    | .literal (.int _) => false
    | .literal _ => true
    | .template _ => true
    | .both _ _ => true
    | .either _ _ => true
    | _ => false

/-- A negated literal is the negative literal; the least integer has no negative and
becomes a float. -/
def negated : Expr → Expr
  | .literal (.int i) =>
    if i = Int64.minValue then .literal (.float (9223372036854775808 : Float))
    else .literal (.int (-i))
  | .literal (.float x) => .literal (.float (-x))
  | e => .unary .negate e

def plussed : Expr → Expr
  | .literal (.int i) => .literal (.int i)
  | .literal (.float x) => .literal (.float x)
  | e => .unary .plus e

def along (root : Expr) : List Access → Expr
  | [] => root
  | step :: path => .access root (step :: path)

end Expr

end Nodeflow
