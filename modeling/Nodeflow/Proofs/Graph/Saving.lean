import Mathlib
import Nodeflow.Graph.Json
import Nodeflow.Proofs.Data.Values

/-!
# Saving and loading a definition

A definition that is saved and loaded comes back with the same program: every part is
written in a form that only that part is read from.  Numbers are the one matter that the
form of the text does not decide, so what is asked of them is said: floats finite and
printed so that they are read back, positions finite, indices of 64 bits.  Places are
read as doubles and rounded to singles, and what they come back as is not told here.
-/

namespace Nodeflow

/-! ## Reading parts back -/

section Recovers

variable {α β : Type} {read : Data → Option α} {view : α → β} {toJson : α → Json}

/-- What `read` takes from `d` differs from `a` in nothing that `view` shows. -/
def Recovers (read : Data → Option α) (view : α → β) (d : Data) (a : α) : Prop :=
  ∃ b, read d = some b ∧ view b = view a

theorem recovers_mapM {γ δ : Type} {f : γ → Option α} {g : α → δ} {h : γ → δ} {l : List γ}
    (hl : ∀ c ∈ l, ∃ b, f c = some b ∧ g b = h c) :
    ∃ bs, l.mapM f = some bs ∧ bs.map g = l.map h := by
  induction l with
  | nil => exact ⟨[], rfl, rfl⟩
  | cons c rest ih =>
      obtain ⟨b, hb, hview⟩ := hl c List.mem_cons_self
      obtain ⟨bs, hbs, hviews⟩ := ih fun c' hc' => hl c' (List.mem_cons_of_mem _ hc')
      refine ⟨b :: bs, ?_, by rw [List.map_cons, List.map_cons, hview, hviews]⟩
      rw [List.mapM_cons, hb, hbs]
      rfl

theorem exists_of_mapM {γ : Type} {f : γ → Option α} {l : List γ} {bs : List α}
    (h : l.mapM f = some bs) {c : γ} (hc : c ∈ l) : ∃ b, f c = some b := by
  induction l generalizing bs with
  | nil => exact absurd hc List.not_mem_nil
  | cons c' rest ih =>
      simp only [List.mapM_cons, Option.bind_eq_bind, Option.bind_eq_some_iff] at h
      obtain ⟨b, hb, bs', hbs, -⟩ := h
      rcases List.mem_cons.1 hc with rfl | hc
      · exact ⟨b, hb⟩
      · exact ih hbs hc

theorem recovers_items {items : List α}
    (h : ∀ a ∈ items, Recovers read view (toJson a).toData a) :
    ∃ bs, (Json.array (items.map toJson)).toData.list?.bind (·.mapM read) = some bs ∧
      bs.map view = items.map view := by
  obtain ⟨bs, hbs, hview⟩ := recovers_mapM (f := fun a => read (toJson a).toData) h
  refine ⟨bs, ?_, hview⟩
  simp only [Json.toData_array, List.map_map, Data.list?, Option.bind_some, List.mapM_map]
  exact hbs

theorem exists_of_items {items bs : List α}
    (h : (Json.array (items.map toJson)).toData.list?.bind (·.mapM read) = some bs) {a : α}
    (ha : a ∈ items) : ∃ b, read (toJson a).toData = some b := by
  simp only [Json.toData_array, List.map_map, Data.list?, Option.bind_some, List.mapM_map] at h
  exact exists_of_mapM h ha

theorem read_items {items : List α} (h : ∀ a ∈ items, read (toJson a).toData = some a) :
    (Json.array (items.map toJson)).toData.list?.bind (·.mapM read) = some items := by
  obtain ⟨bs, hbs, hsame⟩ : ∃ bs : List α, _ ∧ bs.map id = items.map id :=
    recovers_items fun a ha => ⟨a, h a ha, rfl⟩
  rw [List.map_id, List.map_id] at hsame
  rw [hbs, hsame]

theorem recovers_entries {m : NameMap α}
    (h : ∀ e ∈ m.toList, Recovers read view (toJson e.2).toData e.2) :
    Recovers (Data.map? read) (NameMap.map view) (entriesToJson toJson m).toData m := by
  obtain ⟨bs, hbs, hview⟩ := recovers_mapM (l := m.toList)
    (f := fun e => (read (toJson e.2).toData).map (e.1, ·)) (g := fun e => (e.1, view e.2))
    (h := fun e => (e.1, view e.2)) fun e he => by
      obtain ⟨b, hb, hview⟩ := h e he
      exact ⟨(e.1, b), by rw [hb, Option.map_some], by rw [hview]⟩
  have hsorted : bs.Pairwise fun a b => a.1 < b.1 := by
    have hsorted : (m.toList.map fun e => (e.1, view e.2)).Pairwise fun a b => a.1 < b.1 :=
      (m.map view).sorted
    rw [← hview] at hsorted
    exact (List.pairwise_map (f := fun e : String × α => (e.1, view e.2))).1 hsorted
  refine ⟨NameMap.ofList bs, ?_, NameMap.ext_toList ?_⟩
  · simp only [entriesToJson, Json.toData_object, List.map_map, Data.map?, List.mapM_map]
    exact congrArg (· >>= fun pairs => some (NameMap.ofList pairs)) hbs
  · simp only [NameMap.map, NameMap.toList_ofList hsorted, hview]

theorem exists_of_entries {m m' : NameMap α}
    (h : Data.map? read (entriesToJson toJson m).toData = some m') {e : String × α}
    (he : e ∈ m.toList) : ∃ b, read (toJson e.2).toData = some b := by
  simp only [entriesToJson, Json.toData_object, List.map_map, Data.map?, List.mapM_map,
    Option.bind_eq_bind, Option.bind_eq_some_iff] at h
  obtain ⟨bs, hbs, -⟩ := h
  obtain ⟨b, hb⟩ := exists_of_mapM hbs he
  obtain ⟨a, ha, -⟩ := Option.map_eq_some_iff.1 hb
  exact ⟨a, ha⟩

theorem read_entries {m : NameMap α} (h : ∀ e ∈ m.toList, read (toJson e.2).toData = some e.2) :
    Data.map? read (entriesToJson toJson m).toData = some m := by
  obtain ⟨m', hm', hsame⟩ :
      Recovers (Data.map? read) (NameMap.map id) (entriesToJson toJson m).toData m :=
    recovers_entries fun e he => ⟨e.2, h e he, rfl⟩
  have hlist : m'.toList = m.toList := by
    simpa [NameMap.map] using congrArg NameMap.toList hsame
  rw [hm', NameMap.ext_toList hlist]

end Recovers

/-! ## Parameters and links -/

def Param.literal? : Param → Option Value
  | .expression _ => none
  | .literal value => some value

theorem ofData?_param {room : Nat} (hroom : 0 < room) (p : Param)
    (hdepth : ∀ v ∈ p.literal?, v.depth ≤ room)
    (hfloats : ∀ v ∈ p.literal?, ∀ x ∈ v.floats, ReadsBack x) :
    Param.ofData? room p.toJson.toData = some p := by
  cases p with
  | expression source =>
      have hdata : (Param.expression source).toJson.toData = .table [("expr", .text source)] := rfl
      have hdepth : (Data.table [("expr", .text source)]).depth = 1 := rfl
      rw [hdata, Param.ofData?, hdepth, if_pos ⟨hroom, rfl⟩]
      rfl
  | literal v =>
      have hread := v.ofData?_toData (hfloats v rfl)
      have hshallow : v.toJson.toData.depth ≤ room := v.depth_toData.trans_le (hdepth v rfl)
      rw [Param.toJson, Param.ofData?, if_pos ⟨hshallow, isReadable_of_ofData? _ _ hread⟩, hread]
      · rfl
      · intro entries heq
        rw [heq] at hread
        contradiction

theorem index?_ofNat {n : Nat} (h : n < UInt64.size) :
    (Json.ofNat n).toData.index? = some n := by
  have hint : (n : Int) < UInt64.size := by exact_mod_cast h
  rw [Json.ofNat, Json.toData, toData_ofNat h, Data.index?, Data.natBelow?,
    if_pos ⟨Int.natCast_nonneg n, hint⟩, Int.toNat_natCast]

def Link.Indexed (l : Link) : Prop :=
  l.source < UInt64.size ∧ l.destination < UInt64.size ∧ l.slot < UInt64.size

instance (l : Link) : Decidable l.Indexed :=
  inferInstanceAs (Decidable (_ ∧ _ ∧ _))

theorem ofData?_link {l : Link} (h : l.Indexed) : Link.ofData? l.toJson.toData = some l := by
  obtain ⟨hsource, hdestination, hslot⟩ := h
  simp only [Link.toJson, Json.toData_array, List.map_cons, List.map_nil, Link.ofData?,
    index?_ofNat hsource, index?_ofNat hdestination, index?_ofNat hslot, Option.bind_eq_bind,
    Option.bind_some]

theorem ofData?_start {start : Option Nat} (h : ∀ n ∈ start, n < UInt64.size) :
    Data.nullable? Data.index? (startToJson start).toData = some start := by
  cases start with
  | none => rfl
  | some n =>
      have hindex := index?_ofNat (h n rfl)
      rw [startToJson]
      rw [Json.ofNat, Json.toData, toData_ofNat (h n rfl)] at hindex ⊢
      rw [Data.nullable?, hindex]
      · rfl
      · exact nofun

/-! ## Nodes and events -/

def Node.unplaced (n : Node) : Node :=
  { n with position := .origin }

def EventGraph.unplaced (g : EventGraph) : EventGraph :=
  { g with nodes := g.nodes.map Node.unplaced }

def GraphDefinition.unplaced (d : GraphDefinition) : GraphDefinition :=
  { d with events := d.events.map EventGraph.unplaced }

def Position.IsFinite (p : Position) : Prop :=
  p.x.isFinite = true ∧ p.y.isFinite = true

instance (p : Position) : Decidable p.IsFinite :=
  inferInstanceAs (Decidable (_ ∧ _))

theorem exists_ofData?_position {p : Position} (h : p.IsFinite) :
    ∃ q, Position.ofData? p.toJson.toData = some q := by
  obtain ⟨x, hx⟩ := Option.isSome_iff_exists.1 (single?_toData h.1)
  obtain ⟨y, hy⟩ := Option.isSome_iff_exists.1 (single?_toData h.2)
  refine ⟨⟨x, y⟩, ?_⟩
  simp only [Position.toJson, Json.toData_array, List.map_cons, List.map_nil, Position.ofData?,
    hx, hy, Option.bind_eq_bind, Option.bind_some]

theorem isFinite_of_position {p q : Position} (h : Position.ofData? p.toJson.toData = some q) :
    p.IsFinite := by
  simp only [Position.toJson, Json.toData_array, List.map_cons, List.map_nil, Position.ofData?,
    Option.bind_eq_bind, Option.bind_eq_some_iff] at h
  obtain ⟨x, hx, y, hy, -⟩ := h
  exact ⟨isFinite_of_single? hx, isFinite_of_single? hy⟩

structure Node.Saveable (room : Nat) (n : Node) : Prop where
  position : n.position.IsFinite
  depth : ∀ p ∈ n.params, ∀ v ∈ p.literal?, v.depth ≤ room
  floats : ∀ p ∈ n.params, ∀ v ∈ p.literal?, ∀ x ∈ v.floats, ReadsBack x

theorem record?_node (n : Node) :
    n.toJson.toData.record? ["nodeFunction", "params", "pos"] =
      some [some (.text n.function), some (Json.array (n.params.map Param.toJson)).toData,
        some n.position.toJson.toData] := by
  simp [Node.toJson, Json.toData_object, Data.record?, Data.column?, Json.toData]

theorem record?_event (g : EventGraph) :
    g.toJson.toData.record? ["nodes", "links"] =
      some [some (Json.array (g.nodes.map Node.toJson)).toData,
        some (Json.array (g.links.map Link.toJson)).toData] := by
  simp [EventGraph.toJson, Json.toData_object, Data.record?, Data.column?]

theorem recovers_node {room : Nat} (hroom : 2 < room) {n : Node} (h : n.Saveable (room - 2)) :
    Recovers (Node.ofData? room) Node.unplaced n.toJson.toData n := by
  obtain ⟨q, hq⟩ := exists_ofData?_position h.position
  have hparams := read_items fun p hp =>
    ofData?_param (show 0 < room - 2 by omega) p (h.depth p hp) (h.floats p hp)
  refine ⟨{ n with position := q }, ?_, rfl⟩
  simp only [Node.ofData?, record?_node, Data.text?, Data.fieldOr_some, hparams, hq,
    Option.bind_eq_bind, Option.bind_some]

theorem isFinite_of_node {room : Nat} {n n' : Node}
    (h : Node.ofData? room n.toJson.toData = some n') : n.position.IsFinite := by
  simp only [Node.ofData?, record?_node, Data.text?, Data.fieldOr_some, Option.bind_eq_bind,
    Option.bind_some, Option.bind_eq_some_iff] at h
  obtain ⟨-, -, q, hq, -⟩ := h
  exact isFinite_of_position hq

theorem recovers_event {room : Nat} (hroom : 4 < room) {g : EventGraph}
    (hnodes : ∀ n ∈ g.nodes, n.Saveable (room - 4)) (hlinks : ∀ l ∈ g.links, l.Indexed) :
    Recovers (EventGraph.ofData? room) EventGraph.unplaced g.toJson.toData g := by
  obtain ⟨ns, hns, hplaces⟩ := recovers_items fun n hn =>
    recovers_node (show 2 < room - 2 by omega) (hnodes n hn)
  have hlinks := read_items fun l hl => ofData?_link (hlinks l hl)
  refine ⟨{ g with nodes := ns }, ?_, by simp only [EventGraph.unplaced, hplaces]⟩
  simp only [EventGraph.ofData?, record?_event, Data.fieldOr_some, hns, hlinks,
    Option.bind_eq_bind, Option.bind_some]

theorem isFinite_of_event {room : Nat} {g g' : EventGraph}
    (h : EventGraph.ofData? room g.toJson.toData = some g') {n : Node} (hn : n ∈ g.nodes) :
    n.position.IsFinite := by
  simp only [EventGraph.ofData?, record?_event, Data.fieldOr_some, Option.bind_eq_bind,
    Option.bind_some] at h
  obtain ⟨ns, hns, -⟩ := Option.bind_eq_some_iff.1 h
  obtain ⟨n', hn'⟩ := exists_of_items hns hn
  exact isFinite_of_node hn'

/-! ## Grammar -/

section Grammar

variable {α : Type} {toJson : α → Json}

theorem grammatical_items (h : ∀ a, (toJson a).Grammatical) (items : List α) :
    (Json.array (items.map toJson)).Grammatical := by
  refine Json.grammaticalItems_iff.2 fun j hj => ?_
  obtain ⟨a, -, rfl⟩ := List.mem_map.1 hj
  exact h a

theorem grammatical_entries (h : ∀ a, (toJson a).Grammatical) (m : NameMap α) :
    (entriesToJson toJson m).Grammatical := by
  refine Json.grammaticalMembers_iff.2 fun e he => ?_
  obtain ⟨e, -, rfl⟩ := List.mem_map.1 he
  exact h e.2

end Grammar

theorem grammatical_param (p : Param) : p.toJson.Grammatical := by
  cases p with
  | expression source => exact ⟨trivial, trivial⟩
  | literal v => exact v.grammatical_toJson

theorem grammatical_ofNat (n : Nat) : (Json.ofNat n).Grammatical :=
  Numeral.ofNat_grammatical n

theorem grammatical_position (p : Position) : p.toJson.Grammatical :=
  ⟨grammatical_single? _ p.x, grammatical_single? _ p.y, trivial⟩

theorem grammatical_node (n : Node) : n.toJson.Grammatical :=
  ⟨trivial, grammatical_items grammatical_param n.params, grammatical_position n.position, trivial⟩

theorem grammatical_link (l : Link) : l.toJson.Grammatical :=
  ⟨grammatical_ofNat _, grammatical_ofNat _, grammatical_ofNat _, trivial⟩

theorem grammatical_event (g : EventGraph) : g.toJson.Grammatical :=
  ⟨grammatical_items grammatical_node g.nodes, grammatical_items grammatical_link g.links, trivial⟩

theorem grammatical_start (start : Option Nat) : (startToJson start).Grammatical := by
  cases start with
  | none => trivial
  | some n => exact grammatical_ofNat n

/-! ## Definitions -/

namespace GraphDefinition

def nodes (d : GraphDefinition) : List Node :=
  d.events.toList.flatMap fun e => e.2.nodes

def links (d : GraphDefinition) : List Link :=
  d.events.toList.flatMap fun e => e.2.links

def literals (d : GraphDefinition) : List Value :=
  d.nodes.flatMap fun n => n.params.filterMap Param.literal?

def firstValues (d : GraphDefinition) : List Value :=
  d.vars.toList.map Prod.snd

def floats (d : GraphDefinition) : List Float :=
  (d.literals ++ d.firstValues).flatMap Value.floats

/-- What saving asks of a definition.  A literal stands six levels deep in the document
and a first value two; the reader's limit bounds how far they may still nest. -/
structure Saveable (d : GraphDefinition) : Prop where
  finite : ∀ x ∈ d.floats, x.isFinite = true
  positions : ∀ n ∈ d.nodes, n.position.IsFinite
  literals : ∀ v ∈ d.literals, v.depth ≤ jsonDepthLimit - 6
  firstValues : ∀ v ∈ d.firstValues, v.depth ≤ jsonDepthLimit - 2
  links : ∀ l ∈ d.links, l.Indexed
  starts : ∀ e ∈ d.starts.toList, ∀ n ∈ e.2, n < UInt64.size

theorem grammatical_toJson (d : GraphDefinition) : d.toJson.Grammatical := by
  have hevents := grammatical_entries grammatical_event d.events
  have hstarts := grammatical_entries grammatical_start d.starts
  have hvars := grammatical_entries Value.grammatical_toJson d.vars
  rw [toJson]
  split
  · exact ⟨hevents, hstarts, trivial⟩
  · exact ⟨hevents, hstarts, hvars, trivial⟩

theorem mem_literals {d : GraphDefinition} {n : Node} (hn : n ∈ d.nodes) {p : Param}
    (hp : p ∈ n.params) {v : Value} (hv : v ∈ p.literal?) : v ∈ d.literals :=
  List.mem_flatMap.2 ⟨n, hn, List.mem_filterMap.2 ⟨p, hp, hv⟩⟩

theorem Saveable.node {d : GraphDefinition} (h : d.Saveable)
    (hfloats : ∀ x ∈ d.floats, ReadsBack x) {n : Node} (hn : n ∈ d.nodes) :
    n.Saveable (jsonDepthLimit - 6) := by
  refine ⟨h.positions n hn, fun p hp v hv => h.literals v (mem_literals hn hp hv), ?_⟩
  intro p hp v hv x hx
  exact hfloats x (List.mem_flatMap.2 ⟨v, List.mem_append_left _ (mem_literals hn hp hv), hx⟩)

theorem read_firstValue {d : GraphDefinition} (h : d.Saveable)
    (hfloats : ∀ x ∈ d.floats, ReadsBack x) {v : Value} (hv : v ∈ d.firstValues) :
    Value.ofShallowData? (jsonDepthLimit - 2) v.toJson.toData = some v := by
  have hdepth : v.toJson.toData.depth ≤ jsonDepthLimit - 2 :=
    v.depth_toData.trans_le (h.firstValues v hv)
  rw [Value.ofShallowData?, if_pos hdepth]
  refine v.ofData?_toData fun x hx => ?_
  exact hfloats x (List.mem_flatMap.2 ⟨v, List.mem_append_right _ hv, hx⟩)

theorem record?_toJson (d : GraphDefinition) :
    d.toJson.toData.record? ["nodeGraph", "startNodes", "variables"] =
      some [some (entriesToJson EventGraph.toJson d.events).toData,
        some (entriesToJson startToJson d.starts).toData,
        if d.vars.isEmpty then none else some (entriesToJson Value.toJson d.vars).toData] := by
  rw [toJson]
  split <;> simp [Json.toData_object, Data.record?, Data.column?]

theorem recovers_toData {d : GraphDefinition} (h : d.Saveable)
    (hfloats : ∀ x ∈ d.floats, ReadsBack x) :
    Recovers (ofData? jsonDepthLimit) unplaced d.toJson.toData d := by
  obtain ⟨events, hevents, hplaces⟩ : Recovers (Data.map? (EventGraph.ofData? (jsonDepthLimit - 2)))
      (NameMap.map EventGraph.unplaced) (entriesToJson EventGraph.toJson d.events).toData
      d.events := by
    refine recovers_entries fun e he => recovers_event (by decide) (fun n hn => ?_) fun l hl => ?_
    · exact h.node hfloats (List.mem_flatMap.2 ⟨e, he, hn⟩)
    · exact h.links l (List.mem_flatMap.2 ⟨e, he, hl⟩)
  have hstarts := read_entries (m := d.starts) fun e he => ofData?_start (h.starts e he)
  have hvars := read_entries (m := d.vars) fun e he =>
    read_firstValue h hfloats (List.mem_map_of_mem he)
  have hfield : Data.fieldOr ∅ (Data.map? (Value.ofShallowData? (jsonDepthLimit - 2)))
      (if d.vars.isEmpty then none else some (entriesToJson Value.toJson d.vars).toData) =
      some d.vars := by
    split
    · rename_i hempty
      have hnil : d.vars.toList = [] := List.isEmpty_iff.1 hempty
      exact congrArg some (NameMap.ext_toList hnil.symm)
    · exact hvars
  refine ⟨{ d with events := events }, ?_, by simp only [unplaced, hplaces]⟩
  simp only [ofData?, record?_toJson, hfield, Data.fieldOr_some, hevents, hstarts,
    Option.bind_eq_bind, Option.bind_some]

theorem load?_save_eq (d : GraphDefinition) :
    load? d.save = ofData? jsonDepthLimit d.toJson.toData := by
  rw [load?, save, Json.parse?_pretty d.grammatical_toJson]
  rfl

/-- Saving and loading keep the program: what is loaded differs from what was saved in
the places of nodes at most. -/
theorem load?_save {d : GraphDefinition} (h : d.Saveable)
    (hfloats : ∀ x ∈ d.floats, x.isFinite = true → ReadsBack x) :
    ∃ d', load? d.save = some d' ∧ d'.unplaced = d.unplaced := by
  obtain ⟨d', hd', hview⟩ := recovers_toData h fun x hx => hfloats x hx (h.finite x hx)
  exact ⟨d', d.load?_save_eq.trans hd', hview⟩

def lantern : GraphDefinition :=
  let look : List Param :=
    [.expression "count + 1", .literal (.list [.int 3, .float (doubleOfInt 3), .unit, .list []])]
  let hit : EventGraph :=
    ⟨[⟨"Look", look, ⟨singleOfInt (-8), singleOfInt 0⟩⟩, ⟨"Wait", [], .origin⟩], [⟨0, 1, 0⟩]⟩
  ⟨NameMap.ofList [("on\n\"hit\"", hit)],
    NameMap.ofList [("idle", none), ("on\n\"hit\"", some 0)],
    NameMap.ofList [("count", .int Int64.minValue), ("dark", .float (doubleOf true 0))]⟩

theorem load?_save_lantern : lantern.Saveable ∧
    (∀ x ∈ lantern.floats, x.isFinite = true → ReadsBack x) ∧
    ∃ d', load? lantern.save = some d' ∧ d'.unplaced = lantern.unplaced := by
  have hsaveable : lantern.Saveable :=
    ⟨by decide +kernel, by decide +kernel, by decide +kernel, by decide +kernel,
      by decide +kernel, by decide +kernel⟩
  have hfloats : ∀ x ∈ lantern.floats, x.isFinite = true → ReadsBack x := by decide +kernel
  exact ⟨hsaveable, hfloats, load?_save hsaveable hfloats⟩

/-- A place that is not finite is saved as null, and what holds it never loads again. -/
theorem isFinite_of_load?_save {d d' : GraphDefinition} (h : load? d.save = some d') {n : Node}
    (hn : n ∈ d.nodes) : n.position.IsFinite := by
  simp only [load?_save_eq, ofData?, record?_toJson, Data.fieldOr_some, Option.bind_eq_bind,
    Option.bind_some, Option.bind_eq_some_iff] at h
  obtain ⟨events, hevents, -⟩ := h
  obtain ⟨e, he, hn⟩ := List.mem_flatMap.1 hn
  obtain ⟨g, hg⟩ := exists_of_entries hevents he
  exact isFinite_of_event hg hn

example : (Numeral.toDouble? ⟨false, ['1'], [], ['3', '9']⟩).map
    (fun x => (x.isFinite, singleOfDouble x)) =
      some (true, singleOf false binary32.infinity) := by
  decide +kernel

end GraphDefinition

end Nodeflow
