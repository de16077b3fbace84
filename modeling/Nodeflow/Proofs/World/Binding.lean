import Nodeflow.Proofs.Ancestry
import Nodeflow.Proofs.World.Operation

/-!
# Objects hold the graphs of their classes

In every world that operations lead to, a live object holds one graph for every generated
class of a chain and no other graph.  The chain is that of the class the object had when it
was spawned; the object itself may have changed its class since.
-/

namespace Nodeflow

/-- The graphs of an entry are those of the generated classes of a class's chain. -/
structure Entry.BoundAs (classes : ClassTable) (id : ObjectId) (entry : Entry)
    (className : String) : Prop where
  registered : classes.contains className = true
  complete : ∀ c ∈ classes.chain className, ∀ b, c.blueprint = some b →
    ∃ graph, entry.graphs.find? c.name = some graph ∧ graph.blueprint = b
  sound : ∀ name graph, entry.graphs.find? name = some graph →
    graph.className = name ∧ graph.owner = id ∧
      ∃ c ∈ classes.chain className, c.name = name ∧ c.blueprint = some graph.blueprint

namespace Entry.BoundAs

variable {classes : ClassTable} {id : ObjectId} {entry : Entry} {className : String}

theorem insert (h : entry.BoundAs classes id className) {c : ClassInfo} {classes' : ClassTable}
    (hinsert : classes.insert c = .ok classes') : entry.BoundAs classes' id className := by
  have hchain := ClassTable.chain_insert hinsert h.registered
  exact ⟨ClassTable.contains_insert hinsert h.registered, hchain ▸ h.complete, hchain ▸ h.sound⟩

theorem object (h : entry.BoundAs classes id className) (object : Object) :
    ({ entry with object } : Entry).BoundAs classes id className :=
  ⟨h.registered, h.complete, h.sound⟩

theorem find?_after (h : entry.BoundAs classes id className) {name : String} {graph : BoundGraph}
    (hgraph : entry.graphs.find? name = some graph) (store : Store) (other : String) :
    (entry.after graph store).graphs.find? other =
      if other = name then some { graph with vars := store.vars }
      else entry.graphs.find? other := by
  obtain ⟨rfl, -⟩ := h.sound name graph hgraph
  exact NameMap.find?_insert ..

theorem after (h : entry.BoundAs classes id className) {name : String} {graph : BoundGraph}
    (hgraph : entry.graphs.find? name = some graph) (store : Store) :
    (entry.after graph store).BoundAs classes id className := by
  have hfind := h.find?_after hgraph store
  refine ⟨h.registered, ?_, ?_⟩
  · intro c hc b hb
    obtain ⟨graph', hgraph', hblueprint⟩ := h.complete c hc b hb
    rw [hfind]
    split
    · rename_i hsame
      have heq : graph = graph' := by
        rw [hsame, hgraph] at hgraph'
        exact Option.some.inj hgraph'
      exact ⟨_, rfl, heq ▸ hblueprint⟩
    · exact ⟨graph', hgraph', hblueprint⟩
  · intro other graph' hgraph'
    rw [hfind] at hgraph'
    split at hgraph'
    · rename_i hsame
      cases hgraph'
      exact hsame ▸ h.sound name graph hgraph
    · exact h.sound other graph' hgraph'

theorem bindGraphs (object : Object) (hclass : classes.contains object.className = true) :
    (⟨object, World.bindGraphs classes object.className id⟩ : Entry).BoundAs classes id
      object.className := by
  have hnodup : (((classes.chain object.className).filterMap fun c => c.blueprint.map
      fun b => (c.name, BoundGraph.bind c.name id b)).map Prod.fst).Nodup := by
    refine List.pairwise_map.2 (List.Pairwise.filterMap _ ?_
      (List.pairwise_map.1 (classes.chain_names_nodup object.className)))
    rintro c d hne e he f hf
    obtain ⟨b, -, rfl⟩ := Option.map_eq_some_iff.1 he
    obtain ⟨b', -, rfl⟩ := Option.map_eq_some_iff.1 hf
    exact hne
  refine ⟨hclass, ?_, ?_⟩
  · intro c hc b hb
    refine ⟨.bind c.name id b, NameMap.find?_ofList_of_mem hnodup ?_, rfl⟩
    exact List.mem_filterMap.2 ⟨c, hc, by simp [hb]⟩
  · intro name graph hgraph
    obtain ⟨c, hc, hbind⟩ := List.mem_filterMap.1 (NameMap.mem_of_find?_ofList hgraph)
    obtain ⟨b, hb, heq⟩ := Option.map_eq_some_iff.1 hbind
    cases heq
    exact ⟨rfl, rfl, c, hc, rfl, hb⟩

end Entry.BoundAs

namespace World

variable {w w' : World} {classOf : ObjectId → Option String} {id : ObjectId} {entry : Entry}

def BoundBy (w : World) (classOf : ObjectId → Option String) : Prop :=
  ∀ id entry, w.entry? id = some entry →
    ∃ className, classOf id = some className ∧ entry.BoundAs w.classes id className

/-! ## Changes keep the graphs of an object -/

namespace BoundBy

theorem register (h : w.BoundBy classOf) {c : ClassInfo} {classes : ClassTable}
    (hinsert : w.classes.insert c = .ok classes) : BoundBy { w with classes } classOf := by
  intro id entry hentry
  obtain ⟨className, hclass, hbound⟩ := h id entry hentry
  exact ⟨className, hclass, hbound.insert hinsert⟩

theorem spawn (h : w.BoundBy classOf) {object : Object} {id : ObjectId}
    (hspawn : w.spawn object = .ok (w', id)) :
    w'.BoundBy (Function.update classOf id (some object.className)) := by
  intro other entry hentry
  obtain ⟨hclass, -, hworld⟩ := spawn_eq_ok.1 hspawn
  have hclasses : w'.classes = w.classes := by rw [hworld]; rfl
  rw [hclasses]
  by_cases hid : other = id
  · subst hid
    rw [eq_of_entry?_spawn hspawn hentry]
    exact ⟨object.className, Function.update_self .., .bindGraphs object hclass⟩
  · rw [entry?_spawn_ne hspawn hid] at hentry
    rw [Function.update_of_ne hid]
    exact h other entry hentry

theorem destroy (h : w.BoundBy classOf) {object : Object} {id : ObjectId}
    (hdestroy : w.destroy id = some (w', object)) : w'.BoundBy classOf := by
  intro other entry hentry
  rw [entry?_destroy hdestroy] at hentry
  split at hentry
  · contradiction
  · obtain ⟨-, -, -, rfl⟩ := destroy_eq_some.1 hdestroy
    exact h other entry hentry

theorem work (h : w.BoundBy classOf) (hwork : Work w w') : w'.BoundBy classOf := by
  intro other entry hentry
  rw [hwork.classes]
  cases hwork with
  | object object hbefore =>
      rw [entry?_setEntry hbefore] at hentry
      split at hentry
      · rename_i hid
        cases hentry
        obtain ⟨className, hclass, hbound⟩ := h _ _ hbefore
        exact hid ▸ ⟨className, hclass, hbound.object object⟩
      · exact h other entry hentry
  | segment hbefore hgraph hsegment =>
      rw [entry?_park, entry?_setEntry hbefore] at hentry
      split at hentry
      · rename_i hid
        cases hentry
        obtain ⟨className, hclass, hbound⟩ := h _ _ hbefore
        exact hid ▸ ⟨className, hclass, hbound.after hgraph _⟩
      · exact h other entry hentry

theorem works (h : w.BoundBy classOf) (hworks : Works w w') : w'.BoundBy classOf := by
  induction hworks with
  | refl => exact h
  | tail _ hwork ih => exact ih.work hwork

end BoundBy

theorem Reached.boundBy (h : w.Reached) : ∃ classOf, w.BoundBy classOf := by
  refine h.preserve (motive := fun w => ∃ classOf, w.BoundBy classOf) ?empty ?change
  case empty =>
    intro config registry
    refine ⟨fun _ => none, fun id entry hentry => ?_⟩
    contradiction
  case change =>
    rintro w w' - ⟨classOf, hw⟩ hchange
    cases hchange with
    | register hinsert hbuilt => exact ⟨_, hw.register hinsert⟩
    | spawn hspawn => exact ⟨_, hw.spawn hspawn⟩
    | destroy hdestroy => exact ⟨_, hw.destroy hdestroy⟩
    | work hwork => exact ⟨_, hw.work hwork⟩
    | poll dt => exact ⟨_, hw⟩

theorem Reached.bound (h : w.Reached) (hentry : w.entry? id = some entry) :
    ∃ className, entry.BoundAs w.classes id className := by
  obtain ⟨classOf, hbound⟩ := h.boundBy
  obtain ⟨className, -, hentry⟩ := hbound id entry hentry
  exact ⟨className, hentry⟩

/-! ## The class an object was spawned with -/

/-- The class of the object that a history spawned under a handle, the last if several. -/
def spawnedAs (w : World) (classOf : ObjectId → Option String) :
    List Operation → ObjectId → Option String
  | [] => classOf
  | operation :: rest =>
    let (after, answer) := w.perform operation
    match operation, answer with
    | .spawn object, .spawned (.ok id) =>
      after.spawnedAs (Function.update classOf id (some object.className)) rest
    | _, _ => after.spawnedAs classOf rest

theorem BoundBy.performAll (h : w.BoundBy classOf) (operations : List Operation) :
    (w.performAll operations).BoundBy (w.spawnedAs classOf operations) := by
  induction operations generalizing w classOf with
  | nil => exact h
  | cons operation rest ih =>
      cases operation with
      | registerNative name parent =>
          refine ih ?_
          simp only [perform]
          split
          · rename_i hregister
            obtain ⟨classes, hinsert, rfl⟩ := register_eq_ok.1 hregister
            exact h.register hinsert
          · exact h
      | registerGenerated name parent d =>
          refine ih ?_
          simp only [perform]
          split
          · rename_i hregister
            obtain ⟨classes, hinsert, rfl, -⟩ := registerGenerated_eq_ok.1 hregister
            exact h.register hinsert
          · exact h
      | spawn object =>
          cases hspawn : w.spawn object with
          | error e =>
              simp only [World.performAll, spawnedAs, perform, hspawn]
              exact ih h
          | ok spawned =>
              obtain ⟨w', id⟩ := spawned
              simp only [World.performAll, spawnedAs, perform, hspawn]
              exact ih (h.spawn hspawn)
      | destroy id =>
          refine ih ?_
          simp only [perform]
          split
          · rename_i hdestroy
            exact h.destroy hdestroy
          · exact h
      | setField id name value =>
          refine ih ?_
          simp only [perform]
          split
          · rename_i hset
            exact h.works (setField_works hset)
          · exact h
      | dispatch id declared event args => exact ih (h.works (dispatch_works ..))
      | tick dt =>
          have hpolled : BoundBy { w with scheduler := (w.scheduler.poll dt).1 } classOf := h
          exact ih (hpolled.works (resumeAll_works _ (w.scheduler.poll dt).2))

theorem boundAs_spawnedAs {config : RuntimeConfig} {registry : Registry}
    {operations : List Operation}
    (hentry : entry? ((empty config registry).performAll operations) id = some entry) :
    ∃ className,
      (empty config registry).spawnedAs (fun _ => none) operations id = some className ∧
      entry.BoundAs ((empty config registry).performAll operations).classes id className := by
  have hempty : (empty config registry).BoundBy fun _ => none := by
    intro id entry hentry
    contradiction
  exact hempty.performAll operations id entry hentry

end World

end Nodeflow
