import Nodeflow.ClassTable
import Nodeflow.Latent.Scheduler
import Nodeflow.Run.Execution

/-!
# Worlds

A world holds classes, objects and what the objects have parked.  Objects live in
slots; an emptied slot is used again under a new generation, so a handle never finds
another object than the one it was made for.
-/

namespace Nodeflow

/-- An object with the graphs of the generated classes it belongs to. -/
structure Entry where
  object : Object
  graphs : NameMap BoundGraph

structure Slot where
  /-- How often the slot has been emptied, modulo the width of a generation. -/
  generation : UInt32
  entry : Option Entry

structure World where
  config : RuntimeConfig
  registry : Registry
  classes : ClassTable
  slots : List Slot
  free : List UInt32
  scheduler : Scheduler

namespace World

def empty (config : RuntimeConfig) (registry : Registry) : World :=
  ⟨config, registry, .empty, [], [], .empty⟩

/-! ## Classes -/

def register (w : World) (c : ClassInfo) : Except ClassError World := do
  let classes ← w.classes.insert c
  pure { w with classes }

def registerNative (w : World) (name : String) (parent : Option String) :
    Except ClassError World :=
  w.register (.native name parent)

def registerGenerated (w : World) (name : String) (parent : Option String)
    (d : GraphDefinition) : Except ClassError (World × List Diagnostic) := do
  let build := d.build w.registry w.config
  let w ← w.register (.generated name parent build)
  pure (w, build.diagnostics)

/-! ## Objects -/

def slot? (w : World) (id : ObjectId) : Option Slot :=
  w.slots[id.index.toNat]?.filter fun slot => slot.generation == id.generation

def entry? (w : World) (id : ObjectId) : Option Entry :=
  (w.slot? id).bind Slot.entry

def object? (w : World) (id : ObjectId) : Option Object :=
  (w.entry? id).map Entry.object

def graph? (w : World) (id : ObjectId) (className : String) : Option BoundGraph :=
  (w.entry? id).bind fun entry => entry.graphs.find? className

def contains (w : World) (id : ObjectId) : Bool :=
  (w.entry? id).isSome

def ids (w : World) : List ObjectId :=
  (w.slots.zipIdx.filter fun (slot, _) => slot.entry.isSome).map fun (slot, index) =>
    ⟨UInt32.ofNat index, slot.generation⟩

def size (w : World) : Nat :=
  w.slots.countP fun slot => slot.entry.isSome

def isEmpty (w : World) : Bool :=
  w.size == 0

def setEntry (w : World) (id : ObjectId) (entry : Entry) : World :=
  { w with slots := w.slots.modify id.index.toNat fun slot => { slot with entry := some entry } }

def setField (w : World) (id : ObjectId) (name : String) (value : Value) :
    Option (Except CapabilityError Unit × World) :=
  (w.entry? id).map fun entry =>
    let (result, object) := entry.object.setField name value
    (result, w.setEntry id { entry with object })

/-- The graphs of an object of a class: one for every generated class of its chain. -/
def bindGraphs (classes : ClassTable) (className : String) (id : ObjectId) : NameMap BoundGraph :=
  .ofList ((classes.chain className).filterMap fun c =>
    c.blueprint.map fun blueprint => (c.name, .bind c.name id blueprint))

/-- The vacant slot to use next, with the slots and the vacant slots from then on. -/
def vacancy (w : World) : UInt32 × List Slot × List UInt32 :=
  match w.free with
  | index :: free => (index, w.slots, free)
  | [] => (UInt32.ofNat w.slots.length, w.slots ++ [⟨0, none⟩], [])

def spawn (w : World) (object : Object) : Except ClassError (World × ObjectId) :=
  if w.classes.contains object.className then
    let (index, slots, free) := w.vacancy
    let generation := (slots[index.toNat]?.map Slot.generation).getD 0
    let id : ObjectId := ⟨index, generation⟩
    let entry : Entry := ⟨object, bindGraphs w.classes object.className id⟩
    .ok ({ w with slots, free }.setEntry id entry, id)
  else .error (.unknown object.className)

def destroy (w : World) (id : ObjectId) : Option (World × Object) :=
  (w.entry? id).map fun entry =>
    ( { w with
          slots := w.slots.modify id.index.toNat fun slot => ⟨slot.generation + 1, none⟩
          free := id.index :: w.free
          scheduler := w.scheduler.cancel id }
    , entry.object )

end World

end Nodeflow
