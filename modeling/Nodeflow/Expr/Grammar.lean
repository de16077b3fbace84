import Nodeflow.Expr.Basic
import Nodeflow.Expr.Token

/-!
# From tokens to expressions

Operators bind by precedence; only the power operator groups to the right, and a
prefix operator binds tighter than any operator between two operands.

The level of nesting is counted while reading.  Every expression, prefix operator,
parenthesis and further operand of a chain of operators is one level deeper, a list
item two levels below its bracket; reading fails where a level exceeds the limit.

Every reading step either takes a token or goes down one of a few fixed stages, so a
multiple of the number of tokens bounds the recursion.
-/

namespace Nodeflow.Expr

inductive Infix where
  | op (op : BinaryOp)
  | both
  | either
  | coalesce
  | isIn
  deriving DecidableEq, Repr

def infix? : Token → Option (Infix × Nat)
  | .inWord => some (.isIn, 110)
  | .symbol s =>
    match s with
    | .shiftLeft => some (.op .shiftLeft, 210)
    | .shiftRight => some (.op .shiftRight, 210)
    | .power => some (.op .power, 190)
    | .star => some (.op .multiply, 180)
    | .slash => some (.op .divide, 180)
    | .percent => some (.op .modulo, 180)
    | .plus => some (.op .add, 150)
    | .minus => some (.op .subtract, 150)
    | .coalesce => some (.coalesce, 135)
    | .less => some (.op .less, 130)
    | .lessEq => some (.op .lessEq, 130)
    | .greater => some (.op .greater, 130)
    | .greaterEq => some (.op .greaterEq, 130)
    | .equal => some (.op .equal, 90)
    | .notEqual => some (.op .notEqual, 90)
    | .andAnd => some (.both, 60)
    | .amp => some (.op .bitAnd, 60)
    | .orOr => some (.either, 30)
    | .pipe => some (.op .bitOr, 30)
    | .caret => some (.op .bitXor, 30)
    | _ => none
  | _ => none

def nextInfix? (ts : List Token) : Option (Infix × Nat) :=
  ts.head?.bind infix?

def groupsRight : Infix → Bool
  | .op .power => true
  | _ => false

/-- Whether an operator takes the operand that another one, of the given precedence and
grouping, stands before. -/
def outranks (next : Option (Infix × Nat)) (precedence : Nat) (toRight : Bool) : Bool :=
  match next with
  | some (_, p) => precedence < p || (precedence == p && toRight)
  | none => false

def join? (i : Infix) (left right : Expr) : Option Expr :=
  match i with
  | .op op => some (.binary op left right)
  | .both => if left.neverBool || right.neverBool then none else some (.both left right)
  | .either => if left.neverBool || right.neverBool then none else some (.either left right)
  | .coalesce => some (.coalesce left right)
  | .isIn => some (.call "contains" [right, left])

def deeper (limit level : Nat) : Option Nat :=
  if limit = 0 ∨ level < limit then some (level + 1) else none

def expect (s : Symbol) : List Token → Option (List Token)
  | .symbol t :: rest => if s = t then some rest else none
  | _ => none

def bareName? (word : String) : Option String :=
  if Token.functionWords.contains word then none else some word

def entryName? : List Token → Option (String × List Token)
  | .name n :: rest => (bareName? n).map (·, rest)
  | .text s :: rest => some (s, rest)
  | _ => none

def textPart (s : String) : List Expr :=
  if s.isEmpty then [] else [.literal (.text s)]

mutual

def readExpr (limit : Nat) : Nat → Nat → List Token → Option (Expr × List Token)
  | 0, _, _ => none
  | fuel + 1, level, ts => do
    let level ← deeper limit level
    let (left, rest) ← readUnary limit fuel level ts
    readInfix limit fuel level 1 left rest

def readInfix (limit : Nat) : Nat → Nat → Nat → Expr → List Token → Option (Expr × List Token)
  | 0, _, _, _, _ => none
  | fuel + 1, level, floor, left, ts =>
    match ts with
    | [] => some (left, [])
    | t :: rest =>
      match infix? t with
      | none => some (left, ts)
      | some (i, precedence) =>
        if precedence < floor ∨ (precedence = floor ∧ !groupsRight i) then some (left, ts)
        else do
          let (right, rest) ← readUnary limit fuel level rest
          let (right, rest) ←
            if outranks (nextInfix? rest) precedence (groupsRight i) then
              readInfix limit fuel level precedence right rest
            else some (right, rest)
          let level ← deeper limit level
          let left ← join? i left right
          readInfix limit fuel level floor left rest

def readUnary (limit : Nat) : Nat → Nat → List Token → Option (Expr × List Token)
  | 0, _, _ => none
  | fuel + 1, level, ts =>
    match ts with
    | .symbol .minus :: rest => do
      let level ← deeper limit level
      let (e, rest) ← readUnary limit fuel level rest
      some (e.negated, rest)
    | .symbol .plus :: rest => do
      let level ← deeper limit level
      let (e, rest) ← readUnary limit fuel level rest
      some (e.plussed, rest)
    | .symbol .bang :: rest => do
      let level ← deeper limit level
      let (e, rest) ← readUnary limit fuel level rest
      some (.unary .not e, rest)
    | ts => do
      let (root, rest) ← readPrimary limit fuel level ts
      readPath limit fuel level root [] rest

def readPrimary (limit : Nat) : Nat → Nat → List Token → Option (Expr × List Token)
  | 0, _, _ => none
  | fuel + 1, level, ts =>
    match ts with
    | .bool b :: rest => some (.literal (.bool b), rest)
    | .int i :: rest => some (.literal (.int i), rest)
    | .float x :: rest => some (.literal (.float x), rest)
    | .text s :: rest => some (.literal (.text s), rest)
    | .char c :: rest => some (.literal (.char c), rest)
    | .name f :: .symbol .leftParen :: rest => do
      let level ← deeper limit level
      let (args, rest) ← readItems limit fuel level .rightParen rest
      some (.call f args, rest)
    | .name n :: rest => do
      let n ← bareName? n
      some (.name n, rest)
    | .symbol .leftParen :: .symbol .rightParen :: rest => some (.literal .unit, rest)
    | .symbol .leftParen :: rest => do
      let level ← deeper limit level
      let (e, rest) ← readExpr limit fuel level rest
      let rest ← expect .rightParen rest
      some (e, rest)
    | .symbol .leftBracket :: rest => do
      let level ← deeper limit level
      let level ← deeper limit level
      let (items, rest) ← readItems limit fuel level .rightBracket rest
      some (.array items, rest)
    | .symbol .mapOpen :: rest => do
      let level ← deeper limit level
      let level ← deeper limit level
      let (entries, rest) ← readEntries limit fuel level [] rest
      some (.map entries, rest)
    | .symbol .templateOpen :: rest => do
      let level ← deeper limit level
      let (parts, rest) ← readParts limit fuel level rest
      match parts with
      | [] => some (.literal (.text ""), rest)
      | [.literal (.text s)] => some (.literal (.text s), rest)
      | parts => some (.template parts, rest)
    | _ => none

def readPath (limit : Nat) :
    Nat → Nat → Expr → List Access → List Token → Option (Expr × List Token)
  | 0, _, _, _, _ => none
  | fuel + 1, level, root, path, ts =>
    match ts with
    | .symbol .dot :: rest => readMember limit fuel level false root path rest
    | .symbol .safeDot :: rest => readMember limit fuel level true root path rest
    | .symbol .leftBracket :: rest => readIndex limit fuel level false root path rest
    | .symbol .safeBracket :: rest => readIndex limit fuel level true root path rest
    | ts => some (root.along path, ts)

def readMember (limit : Nat) :
    Nat → Nat → Bool → Expr → List Access → List Token → Option (Expr × List Token)
  | 0, _, _, _, _, _ => none
  | fuel + 1, level, safe, root, path, ts =>
    match ts with
    | .name n :: .symbol .leftParen :: rest => do
      let inner ← deeper limit level
      let (args, rest) ← readItems limit fuel inner .rightParen rest
      readPath limit fuel level root (path ++ [.method n args safe]) rest
    | .name n :: rest => do
      let n ← bareName? n
      readPath limit fuel level root (path ++ [.member n safe]) rest
    | _ => none

/-- An index after its bracket.  A written index into a written container is checked at
once, where no other access stands between them. -/
def readIndex (limit : Nat) :
    Nat → Nat → Bool → Expr → List Access → List Token → Option (Expr × List Token)
  | 0, _, _, _, _, _ => none
  | fuel + 1, level, safe, root, path, ts => do
    let inner ← deeper limit level
    let (key, rest) ← readExpr limit fuel inner ts
    let rest ← expect .rightBracket rest
    if neverIndexes (root.along path) key then none
    else readPath limit fuel level root (path ++ [.index key safe]) rest

def readItems (limit : Nat) : Nat → Nat → Symbol → List Token → Option (List Expr × List Token)
  | 0, _, _, _ => none
  | fuel + 1, level, close, ts =>
    match expect close ts with
    | some rest => some ([], rest)
    | none => do
      let (item, rest) ← readExpr limit fuel level ts
      match expect .comma rest with
      | some rest =>
        let (items, rest) ← readItems limit fuel level close rest
        some (item :: items, rest)
      | none =>
        let rest ← expect close rest
        some ([item], rest)

def readEntries (limit : Nat) :
    Nat → Nat → List String → List Token → Option (List (String × Expr) × List Token)
  | 0, _, _, _ => none
  | fuel + 1, level, seen, ts =>
    match expect .rightBrace ts with
    | some rest => some ([], rest)
    | none => do
      let (key, rest) ← entryName? ts
      if seen.contains key then none
      else
        let rest ← expect .colon rest
        let (value, rest) ← readExpr limit fuel level rest
        match expect .comma rest with
        | some rest =>
          let (entries, rest) ← readEntries limit fuel level (key :: seen) rest
          some ((key, value) :: entries, rest)
        | none =>
          let rest ← expect .rightBrace rest
          some ([(key, value)], rest)

def readParts (limit : Nat) : Nat → Nat → List Token → Option (List Expr × List Token)
  | 0, _, _ => none
  | fuel + 1, level, ts =>
    match ts with
    | .text s :: .symbol .templateClose :: rest => some (textPart s, rest)
    | .text s :: .symbol .holeOpen :: .symbol .holeClose :: rest => do
      let (parts, rest) ← readParts limit fuel level rest
      some (textPart s ++ parts, rest)
    | .text s :: .symbol .holeOpen :: rest => do
      let (e, rest) ← readExpr limit fuel level rest
      let rest ← expect .holeClose rest
      let (parts, rest) ← readParts limit fuel level rest
      some (textPart s ++ (e :: parts), rest)
    | _ => none

end

/-- The expression a text holds, if the text is one and nests within the limit. -/
def parse? (limit : Nat) (source : String) : Option Expr := do
  let ts ← Token.scan source
  match ← readExpr limit (8 * ts.length + 8) 0 ts with
  | (e, []) => some e
  | _ => none

end Nodeflow.Expr
