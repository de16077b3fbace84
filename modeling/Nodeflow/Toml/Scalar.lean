import Nodeflow.Data.Basic
import Nodeflow.Text.Hex
import Nodeflow.Toml.Date

/-!
# Strings and numbers in TOML
-/

namespace Nodeflow.Toml

def isSpace (c : Char) : Bool :=
  c == ' ' || c == '\t'

def skipSpace (cs : List Char) : List Char :=
  cs.dropWhile isSpace

def lineEnd? : List Char → Option (List Char)
  | '\n' :: rest => some rest
  | '\r' :: '\n' :: rest => some rest
  | _ => none

def isPlain (c : Char) : Bool :=
  c == '\t' || (0x20 ≤ c.toNat && c.toNat != 0x7f)

/-! ## Strings -/

private def codePoint (digits rest : List Char) : Option (Char × List Char) := do
  let char ← (hexNumber? digits).bind charOfCode?
  some (char, rest)

def readEscape : List Char → Option (Char × List Char)
  | 'b' :: rest => some (Char.ofNat 8, rest)
  | 't' :: rest => some ('\t', rest)
  | 'n' :: rest => some ('\n', rest)
  | 'f' :: rest => some (Char.ofNat 12, rest)
  | 'r' :: rest => some ('\r', rest)
  | '"' :: rest => some ('"', rest)
  | '\\' :: rest => some ('\\', rest)
  | 'u' :: rest => if 4 ≤ rest.length then codePoint (rest.take 4) (rest.drop 4) else none
  | 'U' :: rest => if 8 ≤ rest.length then codePoint (rest.take 8) (rest.drop 8) else none
  | _ => none

def readBasic : Nat → List Char → Option (List Char × List Char)
  | 0, _ => none
  | fuel + 1, cs =>
    match cs with
    | '"' :: rest => some ([], rest)
    | '\\' :: rest => do
      let (c, rest) ← readEscape rest
      let (s, rest) ← readBasic fuel rest
      some (c :: s, rest)
    | c :: rest =>
      if isPlain c then do
        let (s, rest) ← readBasic fuel rest
        some (c :: s, rest)
      else none
    | [] => none

def readLiteral : List Char → Option (List Char × List Char)
  | [] => none
  | c :: rest =>
    if c = '\'' then some ([], rest)
    else if isPlain c then do
      let (s, rest) ← readLiteral rest
      some (c :: s, rest)
    else none

def countFront (mark : Char) (cs : List Char) : Nat :=
  (cs.takeWhile (· == mark)).length

/-- The quotes that end a string of several lines: the last three of at most five. -/
def closing? (mark : Char) (cs : List Char) : Option (List Char × List Char) :=
  let count := countFront mark cs
  if count < 3 then none
  else
    let inside := min (count - 3) 2
    some (List.replicate inside mark, cs.drop (inside + 3))

def continued? (cs : List Char) : Option (List Char) :=
  (lineEnd? (skipSpace cs)).map fun rest => skipBlank rest.length rest
where
  skipBlank : Nat → List Char → List Char
    | 0, cs => cs
    | fuel + 1, cs =>
      match lineEnd? cs with
      | some rest => skipBlank fuel rest
      | none =>
        match cs with
        | c :: rest => if isSpace c then skipBlank fuel rest else cs
        | [] => []

def readLines (mark : Char) (escapes : Bool) : Nat → List Char → Option (List Char × List Char)
  | 0, _ => none
  | fuel + 1, cs =>
    match closing? mark cs with
    | some result => some result
    | none =>
      match lineEnd? cs with
      | some rest => do
        let (s, rest) ← readLines mark escapes fuel rest
        some ('\n' :: s, rest)
      | none =>
        match cs with
        | [] => none
        | c :: rest =>
          if escapes && c == '\\' then
            match continued? rest with
            | some rest => readLines mark escapes fuel rest
            | none => do
              let (c, rest) ← readEscape rest
              let (s, rest) ← readLines mark escapes fuel rest
              some (c :: s, rest)
          else if isPlain c then do
            let (s, rest) ← readLines mark escapes fuel rest
            some (c :: s, rest)
          else none

def dropLineEnd (cs : List Char) : List Char :=
  (lineEnd? cs).getD cs

def readText (cs : List Char) : Option (String × List Char) := do
  let (s, rest) ← read cs
  some (String.ofList s, rest)
where
  read : List Char → Option (List Char × List Char)
    | '"' :: '"' :: '"' :: rest => readLines '"' true (rest.length + 1) (dropLineEnd rest)
    | '\'' :: '\'' :: '\'' :: rest => readLines '\'' false (rest.length + 1) (dropLineEnd rest)
    | '"' :: rest => readBasic (rest.length + 1) rest
    | '\'' :: rest => readLiteral rest
    | _ => none

/-! ## Numbers -/

def readGrouped (isDigit : Char → Bool) : List Char → Option (List Char × List Char)
  | [] => none
  | c :: rest =>
    if isDigit c then
      let (more, rest) := tail rest
      some (c :: more, rest)
    else none
where
  tail : List Char → List Char × List Char
    | '_' :: c :: rest =>
      if isDigit c then
        let (more, rest) := tail rest
        (c :: more, rest)
      else ([], '_' :: c :: rest)
    | c :: rest =>
      if isDigit c then
        let (more, rest) := tail rest
        (c :: more, rest)
      else ([], c :: rest)
    | [] => ([], [])

def readWhole : List Char → Option (List Char × List Char)
  | '0' :: rest => some (['0'], rest)
  | cs => readGrouped Char.isDigit cs

def readSign : List Char → Bool × List Char
  | '-' :: rest => (true, rest)
  | '+' :: rest => (false, rest)
  | cs => (false, cs)

private def isMark (lower upper : Char) : List Char → Bool
  | c :: _ => c == lower || c == upper
  | [] => false

def readExponent (cs : List Char) : Option (Int × List Char) :=
  if isMark 'e' 'E' cs then do
    let (negative, rest) := readSign (cs.drop 1)
    let (digits, rest) ← readGrouped Char.isDigit rest
    let n : Int := digitsValue digits
    some (if negative then -n else n, rest)
  else some (0, cs)

def readFraction (cs : List Char) : Option (List Char × List Char) :=
  match cs with
  | '.' :: rest => readGrouped Char.isDigit rest
  | cs => some ([], cs)

/-- A double from its digits.  Numbers beyond the greatest double are refused where they
are positive, and infinite where they are negative. -/
def doubleOfDigits (negative : Bool) (whole fraction : List Char) (exponent : Int) :
    Option Float :=
  let magnitude :=
    binary64.ofDecimal (digitsValue (whole ++ fraction)) (exponent - fraction.length)
  if !negative && magnitude == binary64.infinity then none
  else some (doubleOf negative magnitude)

def signedWord? (i : Int) : Option Data :=
  (word? i).map fun w => .int w.toInt

def readDecimal (cs : List Char) : Option (Data × List Char) := do
  let (negative, rest) := readSign cs
  match rest with
  | 'i' :: 'n' :: 'f' :: rest => some (.float (doubleOf negative binary64.infinity), rest)
  | 'n' :: 'a' :: 'n' :: rest => some (.float doubleNaN, rest)
  | rest =>
    let (whole, rest) ← readWhole rest
    if isMark 'e' 'E' rest || isMark '.' '.' rest then
      let (fraction, rest) ← readFraction rest
      let (exponent, rest) ← readExponent rest
      let x ← doubleOfDigits negative whole fraction exponent
      some (.float x, rest)
    else
      let n : Int := digitsValue whole
      let d ← signedWord? (if negative then -n else n)
      some (d, rest)

private def isBinaryDigit (c : Char) : Bool :=
  c == '0' || c == '1'

private def isOctalDigit (c : Char) : Bool :=
  '0' ≤ c && c ≤ '7'

def readBased (base : Nat) (isDigit : Char → Bool) (cs : List Char) :
    Option (Data × List Char) := do
  let (digits, rest) ← readGrouped isDigit cs
  let n := digits.foldl (fun n c => base * n + (hexValue? c).getD 0) 0
  let d ← signedWord? n
  some (d, rest)

def readNumber : List Char → Option (Data × List Char)
  | '0' :: 'x' :: rest => readBased 16 (fun c => (hexValue? c).isSome) rest
  | '0' :: 'o' :: rest => readBased 8 isOctalDigit rest
  | '0' :: 'b' :: rest => readBased 2 isBinaryDigit rest
  | cs => readDecimal cs

def dateName : String := "$__toml_private_datetime"

def dateData (text : List Char) : Data :=
  .table [(dateName, .text (String.ofList text))]

def readScalar (cs : List Char) : Option (Data × List Char) :=
  match cs with
  | 't' :: 'r' :: 'u' :: 'e' :: rest => some (.bool true, rest)
  | 'f' :: 'a' :: 'l' :: 's' :: 'e' :: rest => some (.bool false, rest)
  | c :: _ =>
    if c = '"' ∨ c = '\'' then (readText cs).map fun (s, rest) => (.text s, rest)
    else
      match readDate cs with
      | some (text, rest) => some (dateData text, rest)
      | none => readNumber cs
  | [] => none

end Nodeflow.Toml
