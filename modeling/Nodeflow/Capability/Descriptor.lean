import Nodeflow.ParamType

/-!
# Descriptors of capabilities

What is known of a capability without calling it: its parameters, and the outputs a
link may leave it by.  An output is chosen from the result of the call, by the values
each output lists.
-/

namespace Nodeflow

inductive Category where
  | event
  | flowControl
  | utility
  | variable
  | latent
  | gameplay
  | custom
  deriving DecidableEq, Repr

namespace Category

def title : Category → String
  | .event => "Events"
  | .flowControl => "Flow Control"
  | .utility => "Utilities"
  | .variable => "Variables"
  | .latent => "Latent"
  | .gameplay => "Gameplay"
  | .custom => "Custom"

def rank : Category → Nat
  | .event => 0
  | .flowControl => 1
  | .utility => 2
  | .variable => 3
  | .latent => 4
  | .gameplay => 5
  | .custom => 6

theorem rank_inj {a b : Category} (h : a.rank = b.rank) : a = b := by
  cases a <;> cases b <;> first | rfl | contradiction

end Category

structure ParamSpec where
  name : String
  type : ParamType
  deriving DecidableEq

inductive SlotPattern where
  | oneOf (values : List Value)
  | default
  deriving DecidableEq

structure ExecSlot where
  name : String
  pattern : SlotPattern
  deriving DecidableEq

namespace ExecSlot

def default : ExecSlot := ⟨"default", .default⟩

def accepts (slot : ExecSlot) (result : Value) : Bool :=
  match slot.pattern with
  | .oneOf values => values.any (·.looselyEquals result)
  | .default => false

def isDefault (slot : ExecSlot) : Bool :=
  match slot.pattern with
  | .oneOf _ => false
  | .default => true

end ExecSlot

structure Descriptor where
  id : String
  category : Category
  description : String
  params : List ParamSpec
  slots : List ExecSlot
  latent : Bool
  method : Bool
  produces : List ParamSpec
  deriving DecidableEq

namespace Descriptor

/-- A capability without slots has one output all the same. -/
def outputCount (d : Descriptor) : Nat :=
  max d.slots.length 1

def thenName : String := "then"

def outputName? (d : Descriptor) (slot : Nat) : Option String :=
  if d.slots.isEmpty then (if slot = 0 then some thenName else none)
  else d.slots[slot]?.map ExecSlot.name

/-- The output a result leaves by: the first slot that accepts it, else the first
default slot. -/
def selectSlot (d : Descriptor) (result : Value) : Option Nat :=
  if d.slots.isEmpty then some 0
  else
    match d.slots.findIdx? (·.accepts result) with
    | some slot => some slot
    | none => d.slots.findIdx? ExecSlot.isDefault

theorem selectSlot_lt {d : Descriptor} {result : Value} {slot : Nat}
    (h : d.selectSlot result = some slot) : slot < d.outputCount := by
  unfold selectSlot at h
  unfold outputCount
  split at h
  · simp only [Option.some.injEq] at h
    omega
  · split at h
    · rename_i found
      have := (List.findIdx?_eq_some_iff_findIdx_eq.1 found).1
      simp only [Option.some.injEq] at h
      omega
    · have := (List.findIdx?_eq_some_iff_findIdx_eq.1 h).1
      omega

end Descriptor

end Nodeflow
