import Nodeflow.Data.Basic

/-!
# The tables of a TOML document

A document fills tables line by line.  A table may be named in a header, come into
being on the way to another header, or be made by a dotted key; only the last two kinds
can still be named in a header or be extended later, and each in its own way.  A value
is complete once it is written.
-/

namespace Nodeflow.Toml

inductive Origin where
  | header
  | passed
  | dotted
  deriving DecidableEq, Repr

inductive Item where
  | value (d : Data)
  | table (origin : Origin) (entries : List (String × Item))
  | tables (closed : List (List (String × Item))) (last : List (String × Item))

abbrev Entries := List (String × Item)

namespace Entries

def get? (es : Entries) (key : String) : Option Item :=
  (es.find? fun e => e.1 == key).map Prod.snd

def set (key : String) (item : Item) : Entries → Entries
  | [] => [(key, item)]
  | e :: rest => if e.1 == key then (key, item) :: rest else e :: set key item rest

/-- Changes the table a path leads to, making the tables that are missing.  A dotted
path does not enter a table that has a header. -/
def within (byDots : Bool) (change : Origin → Entries → Option Entries) :
    List String → Origin → Entries → Option Entries
  | [], origin, es => change origin es
  | key :: path, _, es =>
    let made := if byDots then .dotted else .passed
    match es.get? key with
    | none => do
      let inner ← within byDots change path made []
      some (es.set key (.table made inner))
    | some (.value _) => none
    | some (.tables closed last) => do
      let last ← within byDots change path .header last
      some (es.set key (.tables closed last))
    | some (.table origin inner) =>
      if byDots && origin == .header then none
      else do
        let inner ← within byDots change path origin inner
        some (es.set key (.table origin inner))

/-- Adds a value under a key that is free.  With a dotted key, the table that takes the
value is one that dotted keys made. -/
def addValue (path : List String) (key : String) (d : Data) (es : Entries) : Option Entries :=
  within true (put path key d) path .header es
where
  put (path : List String) (key : String) (d : Data) (origin : Origin) (es : Entries) :
      Option Entries :=
    if (!path.isEmpty && origin != .dotted) || (es.get? key).isSome then none
    else some (es.set key (.value d))

def openTable (path : List String) (key : String) (es : Entries) : Option Entries :=
  within false (put key) path .header es
where
  put (key : String) (_ : Origin) (es : Entries) : Option Entries :=
    match es.get? key with
    | none => some (es.set key (.table .header []))
    | some (.table .passed inner) => some (es.set key (.table .header inner))
    | _ => none

def openNext (path : List String) (key : String) (es : Entries) : Option Entries :=
  within false (put key) path .header es
where
  put (key : String) (_ : Origin) (es : Entries) : Option Entries :=
    match es.get? key with
    | none => some (es.set key (.tables [] []))
    | some (.tables closed last) => some (es.set key (.tables (closed ++ [last]) []))
    | _ => none

def inside (header : List String) (change : Entries → Option Entries) (es : Entries) :
    Option Entries :=
  within false (fun _ => change) header .header es

end Entries

/-! ## Finished tables -/

mutual

def Item.toData : Item → Data
  | .value d => d
  | .table _ entries => .table (entriesToData entries)
  | .tables closed last => .list (closedToData closed ++ [.table (entriesToData last)])

def entriesToData : List (String × Item) → List (String × Data)
  | [] => []
  | (key, item) :: rest => (key, item.toData) :: entriesToData rest

def closedToData : List (List (String × Item)) → List Data
  | [] => []
  | entries :: rest => .table (entriesToData entries) :: closedToData rest

end

end Nodeflow.Toml
