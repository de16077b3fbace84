import Nodeflow.Toml.Item
import Nodeflow.Toml.Scalar

/-!
# Reading TOML documents

A document is read line by line: a header opens a table, and the lines after it fill
that table.  Values nest to a fixed depth, so the depth left bounds their recursion
together with the length of the text.
-/

namespace Nodeflow.Toml

def depthLimit : Nat := 80

/-! ## Keys -/

def isBareKey (c : Char) : Bool :=
  c.isAlphanum || c == '_' || c == '-'

def readKeyPart (cs : List Char) : Option (String × List Char) :=
  match cs with
  | '"' :: rest => (readBasic (rest.length + 1) rest).map fun (s, rest) => (String.ofList s, rest)
  | '\'' :: rest => (readLiteral rest).map fun (s, rest) => (String.ofList s, rest)
  | cs =>
    let (name, rest) := cs.span isBareKey
    if name.isEmpty then none else some (String.ofList name, rest)

def readKeyParts : Nat → List Char → Option (List String × List Char)
  | 0, _ => none
  | fuel + 1, cs => do
    let (part, rest) ← readKeyPart (skipSpace cs)
    match skipSpace rest with
    | '.' :: rest =>
      let (parts, rest) ← readKeyParts fuel rest
      some (part :: parts, rest)
    | rest => some ([part], rest)

def readKey (cs : List Char) : Option ((List String × String) × List Char) := do
  let (parts, rest) ← readKeyParts depthLimit cs
  if depthLimit ≤ parts.length then none
  else
    let last ← parts.getLast?
    some ((parts.dropLast, last), rest)

/-! ## Blanks between the items of an array -/

def skipComment (cs : List Char) : List Char :=
  match cs with
  | '#' :: rest => rest.dropWhile isPlain
  | cs => cs

def skipGaps : Nat → List Char → Option (List Char)
  | 0, cs => some cs
  | fuel + 1, cs =>
    match lineEnd? cs with
    | some rest => skipGaps fuel rest
    | none =>
      match cs with
      | '#' :: _ => (lineEnd? (skipComment cs)).bind (skipGaps fuel)
      | c :: rest => if isSpace c then skipGaps fuel rest else some cs
      | [] => some []

/-! ## Values -/

mutual

def readValue : (fuel : Nat) → (depth : Nat) → List Char → Option (Data × List Char)
  | 0, _, _ => none
  | fuel + 1, depth, cs =>
    match cs with
    | '[' :: rest =>
      if depthLimit ≤ depth + 1 then none
      else do
        let (items, rest) ← readItems fuel (depth + 1) rest
        some (.list items, rest)
    | '{' :: rest =>
      if depthLimit ≤ depth + 1 then none
      else
        match skipSpace rest with
        | '}' :: rest => some (.table [], rest)
        | rest => do
          let (es, rest) ← readEntries fuel (depth + 1) [] rest
          some (.table (entriesToData es), rest)
    | cs => readScalar cs

def readItems : (fuel : Nat) → (depth : Nat) → List Char → Option (List Data × List Char)
  | 0, _, _ => none
  | fuel + 1, depth, cs => do
    match ← skipGaps cs.length cs with
    | ']' :: rest => some ([], rest)
    | cs =>
      let (item, rest) ← readValue fuel depth cs
      match ← skipGaps rest.length rest with
      | ',' :: rest =>
        let (items, rest) ← readItems fuel depth rest
        some (item :: items, rest)
      | ']' :: rest => some ([item], rest)
      | _ => none

def readEntries : (fuel : Nat) → (depth : Nat) → Entries → List Char →
    Option (Entries × List Char)
  | 0, _, _, _ => none
  | fuel + 1, depth, es, cs => do
    let ((path, key), rest) ← readKey cs
    match rest with
    | '=' :: rest =>
      let (d, rest) ← readValue fuel depth (skipSpace rest)
      let es ← es.addValue path key d
      match skipSpace rest with
      | ',' :: rest => readEntries fuel depth es rest
      | '}' :: rest => some (es, rest)
      | _ => none
    | _ => none

end

/-! ## Documents -/

structure Progress where
  header : List String
  entries : Entries

def finishLine? (cs : List Char) : Option (List Char) :=
  match skipComment (skipSpace cs) with
  | [] => some []
  | cs => lineEnd? cs

private def readHeader (p : Progress) (cs : List Char) : Option (Progress × List Char) := do
  let ((path, key), rest) ← readKey cs
  match rest with
  | ']' :: rest =>
    let entries ← p.entries.openTable path key
    some (⟨path ++ [key], entries⟩, rest)
  | _ => none

private def readRepeatable (p : Progress) (cs : List Char) : Option (Progress × List Char) := do
  let ((path, key), rest) ← readKey cs
  match rest with
  | ']' :: ']' :: rest =>
    let entries ← p.entries.openNext path key
    some (⟨path ++ [key], entries⟩, rest)
  | _ => none

private def readAssignment (p : Progress) (cs : List Char) : Option (Progress × List Char) := do
  let ((path, key), rest) ← readKey cs
  match rest with
  | '=' :: rest =>
    let (d, rest) ← readValue (2 * rest.length + 2) 0 (skipSpace rest)
    let entries ← p.entries.inside p.header (·.addValue path key d)
    some ({ p with entries }, rest)
  | _ => none

def readDocument : Nat → Progress → List Char → Option Progress
  | 0, _, _ => none
  | fuel + 1, p, cs =>
    match skipSpace cs with
    | [] => some p
    | cs =>
      match finishLine? cs with
      | some rest => readDocument fuel p rest
      | none => do
        let (p, rest) ←
          match cs with
          | '[' :: '[' :: rest => readRepeatable p rest
          | '[' :: rest => readHeader p rest
          | cs => readAssignment p cs
        let rest ← finishLine? rest
        readDocument fuel p rest

def dropByteOrderMark : List Char → List Char
  | c :: rest => if c = Char.ofNat 0xfeff then rest else c :: rest
  | [] => []

def parse? (text : String) : Option Data := do
  let cs := dropByteOrderMark text.toList
  let p ← readDocument (cs.length + 1) ⟨[], []⟩ cs
  some (.table (entriesToData p.entries))

end Nodeflow.Toml
