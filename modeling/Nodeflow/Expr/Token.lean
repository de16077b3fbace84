import Nodeflow.Number.Binary
import Nodeflow.Number.Numeral
import Nodeflow.Number.Word
import Nodeflow.Text.Hex

/-!
# Tokens of expressions

Scanning takes the longest symbol that starts at a character, and a symbol of the
wider language that has no place in an expression is refused whole: `1--2` is an
error, not a subtraction of a negative number.  A minus sign directly before a digit
belongs to the number unless a value stands before it.

A template is scanned into its texts and, between `holeOpen` and `holeClose`, the
tokens of its embedded expressions.
-/

namespace Nodeflow

inductive Symbol where
  | leftParen | rightParen | leftBracket | rightBracket | rightBrace | mapOpen
  | comma | colon | dot | safeDot | safeBracket
  | plus | minus | star | slash | percent | power | shiftLeft | shiftRight
  | coalesce | less | lessEq | greater | greaterEq | equal | notEqual
  | andAnd | amp | orOr | pipe | caret | bang
  | templateOpen | templateClose | holeOpen | holeClose
  deriving DecidableEq, Repr

inductive Token where
  | bool (b : Bool)
  | int (i : Int64)
  | float (x : Float)
  | text (s : String)
  | char (c : Char)
  | name (s : String)
  | inWord
  | symbol (s : Symbol)
  deriving DecidableEq

namespace Token

def endsValue : Token → Bool
  | .inWord => false
  | .symbol .rightParen | .symbol .rightBracket | .symbol .rightBrace => true
  | .symbol .templateClose => true
  | .symbol _ => false
  | _ => true

/-! ## Names -/

def isNameStart (c : Char) : Bool :=
  c.isAlpha || c == '_'

def isNameChar (c : Char) : Bool :=
  c.isAlphanum || c == '_'

def isName (cs : List Char) : Bool :=
  match cs.dropWhile (· == '_') with
  | c :: _ => c.isAlpha
  | [] => false

def reservedWords : List String :=
  [ "let", "const", "if", "else", "switch", "do", "while", "until", "loop", "for", "continue"
  , "break", "return", "throw", "try", "catch", "import", "export", "as", "private", "fn", "this"
  , "nil", "null", "use", "case", "async", "public", "package", "super", "var", "protected"
  , "spawn", "shared", "is", "sync", "static", "default", "void", "new", "match", "thread", "go"
  , "goto", "yield", "await", "with", "module" ]

/-- Words of the functions the language has built in; such a word can be called, and names
nothing else. -/
def functionWords : List String :=
  [ "print", "debug", "type_of", "eval", "Fn", "call", "curry", "is_shared", "is_def_var"
  , "is_def_fn" ]

def ofWord? (cs : List Char) : Option Token :=
  let word := String.ofList cs
  if word = "true" then some (.bool true)
  else if word = "false" then some (.bool false)
  else if word = "in" then some .inWord
  else if isName cs && !reservedWords.contains word then some (.name word)
  else none

/-! ## Numbers -/

private def radixOf? (c : Char) : Option Nat :=
  if c = 'x' ∨ c = 'X' then some 16
  else if c = 'o' ∨ c = 'O' then some 8
  else if c = 'b' ∨ c = 'B' then some 2
  else none

private def isRadixDigit (radix : Nat) (c : Char) : Bool :=
  match hexValue? c with
  | some v => v < radix
  | none => c == '_'

private def spanNumber (p : Char → Bool) (cs : List Char) : List Char × List Char :=
  let (digits, rest) := cs.span fun c => p c || c == '_'
  (digits.filter (· != '_'), rest)

private def ofRadix? (negative : Bool) (radix : Nat) (cs : List Char) :
    Option (Token × List Char) :=
  let (digits, rest) := spanNumber (isRadixDigit radix) cs
  let value := digits.foldl (fun n c => radix * n + (hexValue? c).getD 0) 0
  if digits.isEmpty ∨ UInt64.size ≤ value then none
  else
    let i := Int64.ofInt value
    some (.int (if negative then -i else i), rest)

/-- The fraction after a point, if the point belongs to the number: it does before a
digit, and before anything that can continue neither a name nor a range. -/
private def spanFraction : List Char → List Char × List Char
  | '.' :: c :: rest =>
    if c.isDigit then spanNumber Char.isDigit (c :: rest)
    else if isNameStart c || c == '.' then ([], '.' :: c :: rest)
    else (['0'], c :: rest)
  | cs => ([], cs)

private def spanExponent : List Char → List Char × List Char
  | e :: c :: rest =>
    if (e == 'e' || e == 'E') && (c.isDigit || c == '+' || c == '-') then
      let (digits, tail) := spanNumber Char.isDigit (if c.isDigit then c :: rest else rest)
      (if c.isDigit then digits else c :: digits, tail)
    else ([], e :: c :: rest)
  | cs => ([], cs)

private def exponentOf? : List Char → Option Int
  | [] => some 0
  | '-' :: digits => if digits.isEmpty then none else some (-(digitsValue digits : Int))
  | '+' :: digits => if digits.isEmpty then none else some (digitsValue digits)
  | digits => some (digitsValue digits)

private def wholeWord? (negative : Bool) (whole fraction exponent : List Char) : Option Int64 :=
  let magnitude : Int := digitsValue whole
  if fraction.isEmpty && exponent.isEmpty then word? (if negative then -magnitude else magnitude)
  else none

/-- A decimal numeral is an integer if it is whole and fits, and else the nearest
double. -/
private def ofDecimal? (negative : Bool) (cs : List Char) : Option (Token × List Char) := do
  let (whole, rest) := spanNumber Char.isDigit cs
  let (fraction, rest) := spanFraction rest
  let (exponent, rest) := spanExponent rest
  let shift ← exponentOf? exponent
  match wholeWord? negative whole fraction exponent with
  | some w => some (.int w, rest)
  | none =>
    let digits := digitsValue (whole ++ fraction)
    let magnitude := binary64.ofDecimal digits (shift - fraction.length)
    some (.float (doubleOf negative magnitude), rest)

def ofNumber? (negative : Bool) : List Char → Option (Token × List Char)
  | '0' :: rest =>
    match rest.dropWhile (· == '_') with
    | c :: digits =>
      match radixOf? c with
      | some radix => ofRadix? negative radix digits
      | none => ofDecimal? negative ('0' :: rest)
    | [] => ofDecimal? negative ('0' :: rest)
  | cs => ofDecimal? negative cs

/-! ## Quoted text -/

private def escape? (close : Char) : List Char → Option (Char × List Char)
  | 'n' :: rest => some ('\n', rest)
  | 't' :: rest => some ('\t', rest)
  | 'r' :: rest => some ('\r', rest)
  | '\\' :: rest => some ('\\', rest)
  | 'x' :: rest => code 2 rest
  | 'u' :: rest => code 4 rest
  | 'U' :: rest => code 8 rest
  | c :: rest => if c = close then some (c, rest) else none
  | [] => none
where
  code (width : Nat) (cs : List Char) : Option (Char × List Char) :=
    if cs.length < width then none
    else ((hexNumber? (cs.take width)).bind charOfCode?).map (·, cs.drop width)

def quoted? (close : Char) : Nat → List Char → Option (List Char × List Char)
  | 0, _ => none
  | _, [] => none
  | fuel + 1, '\\' :: rest => do
    let (c, rest) ← escape? close rest
    let (cs, rest) ← quoted? close fuel rest
    some (c :: cs, rest)
  | fuel + 1, c :: rest =>
    if c = close then
      match rest with
      | d :: tail =>
        if d = close then (quoted? close fuel tail).map fun (cs, rest) => (close :: cs, rest)
        else some ([], rest)
      | [] => some ([], rest)
    else if c = '\n' then none
    else (quoted? close fuel rest).map fun (cs, rest) => (c :: cs, rest)

def templateMark : Char := Char.ofNat 0x60

inductive TemplateEnd where
  | close
  | hole
  deriving DecidableEq, Repr

def templateText? : List Char → Option (List Char × TemplateEnd × List Char)
  | [] => none
  | [c] => if c = templateMark then some ([], .close, []) else none
  | c :: d :: rest =>
    if c = templateMark ∧ d = templateMark then
      (templateText? rest).map fun (cs, e, rest) => (templateMark :: cs, e, rest)
    else if c = templateMark then some ([], .close, d :: rest)
    else if c = '$' ∧ d = '{' then some ([], .hole, rest)
    else (templateText? (d :: rest)).map fun (cs, e, rest) => (c :: cs, e, rest)

def dropLineBreak : List Char → List Char
  | '\r' :: '\n' :: rest => rest
  | '\r' :: rest => rest
  | '\n' :: rest => rest
  | cs => cs

/-! ## Comments -/

/-- What follows a block comment; comments nest, and the end of the text closes them. -/
def skipBlock : Nat → List Char → List Char
  | 0, cs => cs
  | _ + 1, [] => []
  | level + 1, '*' :: '/' :: rest => skipBlock level rest
  | level + 1, '/' :: '*' :: rest => skipBlock (level + 2) rest
  | level + 1, _ :: rest => skipBlock (level + 1) rest

/-! ## Symbols -/

def symbol? : List Char → Option (Symbol × List Char)
  | '(' :: '*' :: _ => none
  | '(' :: rest => some (.leftParen, rest)
  | ')' :: rest => some (.rightParen, rest)
  | '[' :: rest => some (.leftBracket, rest)
  | ']' :: rest => some (.rightBracket, rest)
  | '#' :: '{' :: rest => some (.mapOpen, rest)
  | ',' :: rest => some (.comma, rest)
  | ':' :: c :: rest => if c = ':' ∨ c = '=' ∨ c = ';' then none else some (.colon, c :: rest)
  | ':' :: rest => some (.colon, rest)
  | '.' :: '.' :: _ => none
  | '.' :: rest => some (.dot, rest)
  | '?' :: '.' :: rest => some (.safeDot, rest)
  | '?' :: '[' :: rest => some (.safeBracket, rest)
  | '?' :: '?' :: '=' :: _ => none
  | '?' :: '?' :: rest => some (.coalesce, rest)
  | '+' :: c :: rest => if c = '+' ∨ c = '=' then none else some (.plus, c :: rest)
  | '+' :: rest => some (.plus, rest)
  | '-' :: c :: rest => if c = '-' ∨ c = '=' ∨ c = '>' then none else some (.minus, c :: rest)
  | '-' :: rest => some (.minus, rest)
  | '*' :: '*' :: '=' :: _ => none
  | '*' :: '*' :: rest => some (.power, rest)
  | '*' :: c :: rest => if c = '=' ∨ c = ')' then none else some (.star, c :: rest)
  | '*' :: rest => some (.star, rest)
  | '/' :: '=' :: _ => none
  | '/' :: rest => some (.slash, rest)
  | '%' :: '=' :: _ => none
  | '%' :: rest => some (.percent, rest)
  | '^' :: '=' :: _ => none
  | '^' :: rest => some (.caret, rest)
  | '&' :: '&' :: rest => some (.andAnd, rest)
  | '&' :: '=' :: _ => none
  | '&' :: rest => some (.amp, rest)
  | '|' :: '|' :: rest => some (.orOr, rest)
  | '|' :: c :: rest => if c = '=' ∨ c = '>' then none else some (.pipe, c :: rest)
  | '|' :: rest => some (.pipe, rest)
  | '!' :: '=' :: '=' :: _ => none
  | '!' :: '=' :: rest => some (.notEqual, rest)
  | '!' :: '.' :: _ => none
  | '!' :: rest => some (.bang, rest)
  | '=' :: '=' :: '=' :: _ => none
  | '=' :: '=' :: rest => some (.equal, rest)
  | '<' :: '<' :: '=' :: _ => none
  | '<' :: '<' :: rest => some (.shiftLeft, rest)
  | '<' :: '=' :: rest => some (.lessEq, rest)
  | '<' :: c :: rest => if c = '-' ∨ c = '|' then none else some (.less, c :: rest)
  | '<' :: rest => some (.less, rest)
  | '>' :: '>' :: '=' :: _ => none
  | '>' :: '>' :: rest => some (.shiftRight, rest)
  | '>' :: '=' :: rest => some (.greaterEq, rest)
  | '>' :: rest => some (.greater, rest)
  | _ => none

/-! ## Scanning -/

def isBlank (c : Char) : Bool :=
  c == ' ' || c == '\t' || c == '\r' || c == '\n'

/-- Tokens of a text.  `holes` holds, for each open hole of a template, how many braces
are open inside it; `afterValue` says whether a value ends right before. -/
def scanFrom : Nat → List Nat → Bool → List Char → Option (List Token)
  | 0, _, _, _ => none
  | _ + 1, holes, _, [] => if holes.isEmpty then some [] else none
  | fuel + 1, holes, afterValue, c :: cs =>
    if isBlank c then scanFrom fuel holes afterValue cs
    else if c = '/' ∧ cs.head? = some '/' then
      scanFrom fuel holes afterValue (cs.dropWhile (· != '\n'))
    else if c = '/' ∧ cs.head? = some '*' then
      scanFrom fuel holes afterValue (skipBlock 1 (cs.drop 1))
    else if c.isDigit then do
      let (token, rest) ← ofNumber? false (c :: cs)
      (token :: ·) <$> scanFrom fuel holes true rest
    else if c = '-' ∧ !afterValue ∧ (cs.head?.map Char.isDigit) = some true then do
      let (token, rest) ← ofNumber? true cs
      (token :: ·) <$> scanFrom fuel holes true rest
    else if isNameStart c then do
      let (word, rest) := (c :: cs).span isNameChar
      let token ← ofWord? word
      (token :: ·) <$> scanFrom fuel holes token.endsValue rest
    else if c = '"' then do
      let (body, rest) ← quoted? '"' fuel cs
      (.text (String.ofList body) :: ·) <$> scanFrom fuel holes true rest
    else if c = '\'' then do
      match ← quoted? '\'' fuel cs with
      | ([only], rest) => (.char only :: ·) <$> scanFrom fuel holes true rest
      | _ => none
    else if c = templateMark then
      (.symbol .templateOpen :: ·) <$> scanTemplate fuel holes (dropLineBreak cs)
    else if c = '}' then
      match holes with
      | [] => (.symbol .rightBrace :: ·) <$> scanFrom fuel [] true cs
      | 0 :: outer => (.symbol .holeClose :: ·) <$> scanTemplate fuel outer cs
      | (braces + 1) :: outer =>
        (.symbol .rightBrace :: ·) <$> scanFrom fuel (braces :: outer) true cs
    else do
      let (sign, rest) ← symbol? (c :: cs)
      let holes := match sign, holes with
        | .mapOpen, braces :: outer => (braces + 1) :: outer
        | _, holes => holes
      (.symbol sign :: ·) <$> scanFrom fuel holes (Token.symbol sign).endsValue rest
where
  scanTemplate (fuel : Nat) (holes : List Nat) (cs : List Char) : Option (List Token) := do
    let (body, ending, rest) ← templateText? cs
    match fuel, ending with
    | 0, _ => none
    | fuel + 1, .close =>
      ([.text (String.ofList body), .symbol .templateClose] ++ ·) <$> scanFrom fuel holes true rest
    | fuel + 1, .hole =>
      ([.text (String.ofList body), .symbol .holeOpen] ++ ·) <$>
        scanFrom fuel (0 :: holes) false rest

def scan (source : String) : Option (List Token) :=
  let cs := source.toList
  scanFrom (2 * cs.length + 2) [] false cs

end Token

end Nodeflow
