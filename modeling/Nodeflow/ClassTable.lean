import Nodeflow.Program.Build

/-!
# Classes

Classes inherit from at most one parent.  A class can only name a parent that is
registered already, so the table, kept newest class first, holds every class before its
ancestors, and following parents is walking down the table.
-/

namespace Nodeflow

inductive ClassError where
  | duplicate (name : String)
  | unknownParent (name parent : String)
  | unknown (name : String)
  deriving DecidableEq

def ClassError.message : ClassError → String
  | .duplicate name => "class `" ++ name ++ "` is already registered"
  | .unknownParent name parent =>
    "class `" ++ name ++ "` names unknown parent `" ++ parent ++ "`"
  | .unknown name => "unknown class `" ++ name ++ "`"

structure ClassInfo where
  name : String
  parent : Option String
  blueprint : Option Blueprint
  diagnostics : List Diagnostic

namespace ClassInfo

def native (name : String) (parent : Option String) : ClassInfo :=
  ⟨name, parent, none, []⟩

def generated (name : String) (parent : Option String) (build : Build) : ClassInfo :=
  ⟨name, parent, some build.blueprint, build.diagnostics⟩

def isGenerated (c : ClassInfo) : Bool :=
  c.blueprint.isSome

def defines (c : ClassInfo) (event : String) : Bool :=
  c.blueprint.any (·.defines event)

end ClassInfo

/-- The classes of a list have different names, and each names a parent from the rest of
the list behind it, if any. -/
def Layered : List ClassInfo → Prop
  | [] => True
  | c :: older =>
    (∀ d ∈ older, d.name ≠ c.name) ∧ (∀ p ∈ c.parent, ∃ d ∈ older, d.name = p) ∧ Layered older

structure ClassTable where
  classes : List ClassInfo
  layered : Layered classes

namespace ClassTable

def empty : ClassTable := ⟨[], trivial⟩

instance : Inhabited ClassTable := ⟨empty⟩

def size (t : ClassTable) : Nat :=
  t.classes.length

def get? (t : ClassTable) (name : String) : Option ClassInfo :=
  t.classes.find? fun c => c.name == name

def contains (t : ClassTable) (name : String) : Bool :=
  (t.get? name).isSome

theorem contains_iff {t : ClassTable} {name : String} :
    t.contains name = true ↔ ∃ c ∈ t.classes, c.name = name := by
  simp [contains, get?]

theorem layered_cons {t : ClassTable} {c : ClassInfo} (hnew : ¬t.contains c.name)
    (hparent : c.parent.all t.contains) : Layered (c :: t.classes) := by
  refine ⟨fun d hd hname => hnew (contains_iff.2 ⟨d, hd, hname⟩), fun p hp => ?_, t.layered⟩
  rw [Option.mem_def.1 hp] at hparent
  exact contains_iff.1 hparent

/-- Adds a class whose name is free and whose parent is there. -/
def insert (t : ClassTable) (c : ClassInfo) : Except ClassError ClassTable :=
  if hnew : t.contains c.name then .error (.duplicate c.name)
  else if hparent : c.parent.all t.contains then
    .ok ⟨c :: t.classes, layered_cons hnew hparent⟩
  else .error (.unknownParent c.name (c.parent.getD ""))

def parentOf? (t : ClassTable) (name : String) : Option String :=
  (t.get? name).bind ClassInfo.parent

def chainIn : List ClassInfo → String → List ClassInfo
  | [], _ => []
  | c :: older, name =>
    if c.name = name then
      match c.parent with
      | some parent => c :: chainIn older parent
      | none => [c]
    else chainIn older name

def chain (t : ClassTable) (name : String) : List ClassInfo :=
  chainIn t.classes name

def isA (t : ClassTable) (name ancestor : String) : Bool :=
  name == ancestor || (t.chain name).any fun c => c.name == ancestor

def graphDefines (t : ClassTable) (name event : String) : Bool :=
  (t.chain name).any (·.defines event)

end ClassTable

end Nodeflow
