import Nodeflow.Number.Word
import Nodeflow.Value

/-!
# Self-describing data

What a document holds once its notation is gone: the common ground of the JSON and
TOML files the library reads.  A part that has a notation but no meaning here, such as
a number out of range or a date, is `unreadable`; it does no harm where nobody looks
at it.

A record may be written as a table, where unknown names are ignored and a known name
may stand only once, or as a list of its fields in declared order, where the tail may
be missing and nothing may be left over.
-/

namespace Nodeflow

inductive Data where
  | null
  | bool (b : Bool)
  | int (i : Int)
  | float (x : Float)
  | text (s : String)
  | list (items : List Data)
  | table (entries : List (String × Data))
  | unreadable
  deriving Inhabited

namespace Data

/-! ## Depth -/

mutual

def depth : Data → Nat
  | .list items => depthList items + 1
  | .table entries => depthEntries entries + 1
  | _ => 0

def depthList : List Data → Nat
  | [] => 0
  | d :: rest => max (depth d) (depthList rest)

def depthEntries : List (String × Data) → Nat
  | [] => 0
  | (_, d) :: rest => max (depth d) (depthEntries rest)

end

mutual

def isReadable : Data → Bool
  | .list items => isReadableList items
  | .table entries => isReadableEntries entries
  | .unreadable => false
  | _ => true

def isReadableList : List Data → Bool
  | [] => true
  | d :: rest => isReadable d && isReadableList rest

def isReadableEntries : List (String × Data) → Bool
  | [] => true
  | (_, d) :: rest => isReadable d && isReadableEntries rest

end

/-! ## Scalars -/

def bool? : Data → Option Bool
  | .bool b => some b
  | _ => none

def text? : Data → Option String
  | .text s => some s
  | _ => none

def natBelow? (limit : Nat) : Data → Option Nat
  | .int i => if 0 ≤ i ∧ i < limit then some i.toNat else none
  | _ => none

def index? : Data → Option Nat :=
  natBelow? UInt64.size

def single? : Data → Option Float32
  | .int i => some (singleOfInt i)
  | .float x => some (singleOfDouble x)
  | _ => none

def list? : Data → Option (List Data)
  | .list items => some items
  | _ => none

def nullable? {α : Type} (read : Data → Option α) : Data → Option (Option α)
  | .null => some none
  | d => (read d).map some

/-! ## Records -/

def column? (entries : List (String × Data)) (name : String) : Option (Option Data) :=
  match entries.filter fun e => e.1 == name with
  | [] => some none
  | [(_, d)] => some (some d)
  | _ => none

def padTo (items : List Data) (names : List String) : List (Option Data) :=
  (List.range names.length).map (items[·]?)

def record? (names : List String) : Data → Option (List (Option Data))
  | .table entries => names.mapM (column? entries)
  | .list items => if items.length ≤ names.length then some (padTo items names) else none
  | _ => none

def fieldOr {α : Type} (fallback : α) (read : Data → Option α) : Option Data → Option α
  | none => some fallback
  | some d => read d

@[simp] theorem fieldOr_some {α : Type} (fallback : α) (read : Data → Option α) (d : Data) :
    fieldOr fallback read (some d) = read d := rfl

def map? {α : Type} (read : Data → Option α) : Data → Option (NameMap α)
  | .table entries => do
    let pairs ← entries.mapM fun e => (read e.2).map (e.1, ·)
    some (NameMap.ofList pairs)
  | _ => none

end Data

/-! ## Values -/

mutual

/-- The value a literal stands for; whole numbers beyond the signed range are floats. -/
def Value.ofData? : Data → Option Value
  | .null => some .unit
  | .bool b => some (.bool b)
  | .int i =>
    match word? i with
    | some w => some (.int w)
    | none => some (.float (doubleOfInt i))
  | .float x => some (.float x)
  | .text s => some (.text s)
  | .list items => (Value.ofDataList? items).map .list
  | .table _ => none
  | .unreadable => none

def Value.ofDataList? : List Data → Option (List Value)
  | [] => some []
  | d :: rest => do
    let v ← Value.ofData? d
    let vs ← Value.ofDataList? rest
    some (v :: vs)

end

def Value.ofShallowData? (room : Nat) (d : Data) : Option Value :=
  if d.depth ≤ room then Value.ofData? d else none

end Nodeflow
