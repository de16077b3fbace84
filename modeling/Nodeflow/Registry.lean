import Nodeflow.Capability.Call

/-!
# The registry of capabilities

Capabilities are registered under different names and numbered in the order of their
registration.  A compiled graph refers to them by number.
-/

namespace Nodeflow

inductive RegistryError where
  | duplicate (name : String)
  | notFound (name : String)
  deriving DecidableEq

def RegistryError.message : RegistryError → String
  | .duplicate name => "capability `" ++ name ++ "` is already registered"
  | .notFound name => "capability `" ++ name ++ "` not found"

def Capability.name (c : Capability) : String :=
  c.descriptor.id

structure Registry where
  entries : List Capability
  numbers : NameMap UInt32
  distinct : (entries.map Capability.name).Nodup
  /-- A number has 32 bits, however many capabilities there are. -/
  numbered : ∀ name,
    numbers.find? name = (entries.findIdx? fun c => c.name == name).map UInt32.ofNat

namespace Registry

def empty : Registry where
  entries := []
  numbers := .empty
  distinct := .nil
  numbered := by simp

instance : Inhabited Registry := ⟨empty⟩

def size (r : Registry) : Nat :=
  r.entries.length

def isEmpty (r : Registry) : Bool :=
  r.entries.isEmpty

def lookup? (r : Registry) (name : String) : Option UInt32 :=
  r.numbers.find? name

def get? (r : Registry) (id : UInt32) : Option Capability :=
  r.entries[id.toNat]?

def contains (r : Registry) (name : String) : Bool :=
  r.numbers.contains name

def resolve (r : Registry) (name : String) : Except RegistryError Descriptor :=
  match (r.lookup? name).bind r.get? with
  | some c => .ok c.descriptor
  | none => .error (.notFound name)

theorem findIdx?_eq_none {r : Registry} {name : String} (h : r.contains name = false) :
    (r.entries.findIdx? fun c => c.name == name) = none := by
  have hfree : r.numbers.find? name = none := by simpa [contains, NameMap.contains] using h
  rwa [r.numbered, Option.map_eq_none_iff] at hfree

theorem distinct_append {r : Registry} {c : Capability} (hnew : r.contains c.name = false) :
    ((r.entries ++ [c]).map Capability.name).Nodup := by
  have hfree := List.findIdx?_eq_none_iff.1 (findIdx?_eq_none hnew)
  rw [List.map_append, List.nodup_append]
  refine ⟨r.distinct, by simp, fun name hname other hother => ?_⟩
  obtain ⟨d, hd, rfl⟩ := List.mem_map.1 hname
  rw [List.mem_singleton.1 hother]
  simpa using hfree d hd

theorem numbered_append {r : Registry} {c : Capability} (hnew : r.contains c.name = false)
    (name : String) :
    (r.numbers.insert c.name (UInt32.ofNat r.size)).find? name =
      ((r.entries ++ [c]).findIdx? fun d => d.name == name).map UInt32.ofNat := by
  rw [NameMap.find?_insert, r.numbered, List.findIdx?_append, List.findIdx?_singleton]
  split
  · rename_i hname
    subst hname
    simp [findIdx?_eq_none hnew, size]
  · rename_i hname
    simp [Ne.symm hname]

def register (r : Registry) (c : Capability) : Except RegistryError Registry :=
  if hnew : r.contains c.name = false then
    .ok
      ⟨ r.entries ++ [c], r.numbers.insert c.name (UInt32.ofNat r.size)
      , distinct_append hnew, numbered_append hnew ⟩
  else .error (.duplicate c.name)

/-- Registers capabilities in order up to the first that is refused.  What was
registered before stays. -/
def registerAll (r : Registry) : List Capability → Registry × Option RegistryError
  | [] => (r, none)
  | c :: rest =>
    match r.register c with
    | .ok r => r.registerAll rest
    | .error e => (r, some e)

/-! ## The palette -/

def descriptors (r : Registry) : List Descriptor :=
  r.entries.map Capability.descriptor

def inCategory (r : Registry) (category : Category) : List Descriptor :=
  r.descriptors.filter fun d => d.category == category

def categories (r : Registry) : List Category :=
  ((r.descriptors.map Descriptor.category).mergeSort fun a b => a.rank ≤ b.rank).eraseReps

end Registry

end Nodeflow
