import Nodeflow.Expr.Grammar
import Nodeflow.Expr.Operator
import Nodeflow.Config
import Nodeflow.Scope

/-!
# Evaluating expressions

A name is looked for in the local scope, then among the graph variables; the name
`owner` stands for the fields of the owning object where nothing hides it.  Operands
are evaluated from left to right, and every node counts as one operation against the
limit.
-/

namespace Nodeflow

/-- What an expression can see. -/
structure Environment where
  scope : LocalScope
  vars : Variables
  owner : Option (NameMap Value)

def ownerName : String := "owner"

def Environment.pushed (env : Environment) : List (String × Datum) :=
  (env.owner.map fun fields => (ownerName, Datum.ofFields fields)).toList
    ++ env.vars.toList.map (fun e => (e.1, .ofValue e.2))
    ++ env.scope.toList.map (fun e => (e.1, .ofValue e.2))

/-- What is pushed later is found first. -/
def Environment.find? (env : Environment) (name : String) : Option Datum :=
  (env.pushed.findRev? fun e => e.1 == name).map Prod.snd

/-! ## Access paths -/

inductive Step where
  | member (name : String)
  | index (key : Datum)
  | method (name : String) (args : List Datum)

def Datum.take (d : Datum) : Step → Except EvalError Datum
  | .member name => d.member name
  | .index key => d.index key
  | .method name args => .error (.unknownFunction name ((d :: args).map Datum.paramTypeName))

/-- Takes the steps of a path; one that is safe does nothing from unit, and ends the
path there. -/
def Datum.walk (d : Datum) : List (Step × Bool) → Except EvalError Datum
  | [] => .ok d
  | (step, safe) :: path =>
    match safe, d with
    | true, .unit => .ok .unit
    | _, d => do (← d.take step).walk path

/-! ## Evaluation -/

abbrev Counted := StateT Nat (Except EvalError)

def countOne (limit : Nat) : Counted Unit := do
  modify (· + 1)
  if limit ≠ 0 ∧ limit < (← get) then throw .tooManyOperations

def Literal.datum : Literal → Datum
  | .unit => .unit
  | .bool b => .bool b
  | .int i => .int i
  | .float x => .float x
  | .text s => .text s
  | .char c => .char c

def Datum.truth : Datum → Except EvalError Bool
  | .bool b => .ok b
  | d => .error (.wrongType d.typeName "bool")

namespace Expr

mutual

def evaluate (env : Environment) (limit : Nat) : Expr → Counted Datum
  | .literal l => do
    countOne limit
    pure l.datum
  | .name n => do
    countOne limit
    match env.find? n with
    | some d => pure d
    | none => throw (.unknownName n)
  | .array items => do
    countOne limit
    pure (.array (← evaluateList env limit items))
  | .map entries => do
    countOne limit
    let entries ← evaluateEntries env limit entries
    pure (.map (NameMap.ofList entries).toList)
  | .template parts => do
    countOne limit
    let parts ← evaluateList env limit parts
    pure (.text (String.join (parts.map Datum.inHole)))
  | .unary op operand => do
    countOne limit
    op.apply (← evaluate env limit operand)
  | .binary op left right => do
    countOne limit
    let a ← evaluate env limit left
    let b ← evaluate env limit right
    op.apply a b
  | .both left right => do
    countOne limit
    let a ← evaluate env limit left
    if ← a.truth then
      let b ← evaluate env limit right
      pure (.bool (← b.truth))
    else pure (.bool false)
  | .either left right => do
    countOne limit
    let a ← evaluate env limit left
    if ← a.truth then pure (.bool true)
    else
      let b ← evaluate env limit right
      pure (.bool (← b.truth))
  | .coalesce left right => do
    countOne limit
    match ← evaluate env limit left with
    | .unit => evaluate env limit right
    | d => pure d
  | .call function args => do
    countOne limit
    let args ← evaluateList env limit args
    throw (.unknownFunction function (args.map Datum.paramTypeName))
  | .access root path => do
    countOne limit
    let path ← evaluatePath env limit path
    let root ← evaluate env limit root
    root.walk path

def evaluateList (env : Environment) (limit : Nat) : List Expr → Counted (List Datum)
  | [] => pure []
  | e :: rest => do
    let d ← evaluate env limit e
    let ds ← evaluateList env limit rest
    pure (d :: ds)

def evaluateEntries (env : Environment) (limit : Nat) :
    List (String × Expr) → Counted (List (String × Datum))
  | [] => pure []
  | (key, e) :: rest => do
    let d ← evaluate env limit e
    let ds ← evaluateEntries env limit rest
    pure ((key, d) :: ds)

/-- Keys and arguments are evaluated before the first step is taken. -/
def evaluatePath (env : Environment) (limit : Nat) : List Access → Counted (List (Step × Bool))
  | [] => pure []
  | .member field safe :: rest => do
    let steps ← evaluatePath env limit rest
    pure ((.member field, safe) :: steps)
  | .index key safe :: rest => do
    let d ← evaluate env limit key
    let steps ← evaluatePath env limit rest
    pure ((.index d, safe) :: steps)
  | .method function args safe :: rest => do
    let ds ← evaluateList env limit args
    let steps ← evaluatePath env limit rest
    pure ((.method function ds, safe) :: steps)

end

/-- The value of an expression.  The evaluation itself counts as one operation, and a
result that is no value is refused. -/
def value (env : Environment) (limit : Nat) (e : Expr) : Except ExprError Value :=
  match (do countOne limit; evaluate env limit e : Counted Datum).run 0 with
  | .error error => .error (.eval error)
  | .ok (d, _) =>
    match d.toValue? with
    | some v => .ok v
    | none => .error (.unsupported d.typeName)

end Expr

/-! ## Expressions with their text -/

structure Expression where
  source : String
  expr : Expr

namespace Expression

def parse (config : RuntimeConfig) (source : String) : Except ExprError Expression :=
  match Expr.parse? config.maxDepth source with
  | some e => .ok ⟨source, e⟩
  | none => .error .parse

def value (config : RuntimeConfig) (env : Environment) (e : Expression) : Except ExprError Value :=
  e.expr.value env config.maxOperations

end Expression

end Nodeflow
