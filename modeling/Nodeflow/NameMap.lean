/-!
# Maps from names

A map whose keys are strings, kept as a list in strictly increasing key order.
The order is part of the type, so two maps with the same bindings are equal and
walking a map always visits its names in the same order.  Strings are compared by
code points, which is also the order of their UTF-8 bytes.
-/

namespace Nodeflow

universe u v

/-- Bindings in strictly increasing key order. -/
structure NameMap (α : Type u) where
  toList : List (String × α)
  sorted : toList.Pairwise fun a b => a.1 < b.1
  deriving DecidableEq

namespace NameMap

variable {α : Type u} {β : Type v}

theorem ext_toList {m n : NameMap α} (h : m.toList = n.toList) : m = n := by
  cases m; cases n; cases h; rfl

def empty : NameMap α := ⟨[], .nil⟩

instance : Inhabited (NameMap α) := ⟨empty⟩

instance : EmptyCollection (NameMap α) := ⟨empty⟩

/-! ## Inserting and erasing -/

def insertList (name : String) (value : α) : List (String × α) → List (String × α)
  | [] => [(name, value)]
  | (k, v) :: rest =>
    if name < k then (name, value) :: (k, v) :: rest
    else if name = k then (name, value) :: rest
    else (k, v) :: insertList name value rest

theorem mem_insertList {name : String} {value : α} {l : List (String × α)}
    {e : String × α} (h : e ∈ insertList name value l) : e = (name, value) ∨ e ∈ l := by
  induction l with
  | nil => simpa [insertList] using h
  | cons head rest ih =>
    obtain ⟨k, v⟩ := head
    simp only [insertList] at h
    split at h
    · simpa using h
    · split at h
      · rcases List.mem_cons.1 h with h | h
        · exact .inl h
        · exact .inr (List.mem_cons_of_mem _ h)
      · rcases List.mem_cons.1 h with h | h
        · exact .inr (h ▸ List.mem_cons_self)
        · exact (ih h).imp id (List.mem_cons_of_mem _)

private theorem lt_of_not_lt_of_ne {a b : String} (h : ¬a < b) (hne : a ≠ b) : b < a := by
  have hle : b ≤ a := String.not_lt.1 h
  refine Decidable.byContradiction fun hn => hne ?_
  exact String.le_antisymm (String.not_lt.1 hn) hle

theorem pairwise_insertList (name : String) (value : α) {l : List (String × α)}
    (h : l.Pairwise fun a b => a.1 < b.1) :
    (insertList name value l).Pairwise fun a b => a.1 < b.1 := by
  induction l with
  | nil => simp [insertList]
  | cons head rest ih =>
    obtain ⟨k, v⟩ := head
    obtain ⟨hk, hrest⟩ := List.pairwise_cons.1 h
    simp only [insertList]
    split
    · rename_i hlt
      refine List.pairwise_cons.2 ⟨fun e he => ?_, h⟩
      rcases List.mem_cons.1 he with rfl | he
      · exact hlt
      · exact String.lt_trans hlt (hk e he)
    · split
      · rename_i heq
        subst heq
        exact List.pairwise_cons.2 ⟨hk, hrest⟩
      · rename_i hlt hne
        refine List.pairwise_cons.2 ⟨fun e he => ?_, ih hrest⟩
        rcases mem_insertList he with rfl | he
        · exact lt_of_not_lt_of_ne hlt hne
        · exact hk e he

def insert (m : NameMap α) (name : String) (value : α) : NameMap α :=
  ⟨insertList name value m.toList, pairwise_insertList name value m.sorted⟩

def erase (m : NameMap α) (name : String) : NameMap α :=
  ⟨m.toList.filter fun e => e.1 != name, m.sorted.filter _⟩

def ofList (l : List (String × α)) : NameMap α :=
  l.foldl (fun m e => m.insert e.1 e.2) empty

/-! ## Looking up -/

def find? (m : NameMap α) (name : String) : Option α :=
  (m.toList.find? fun e => e.1 == name).map Prod.snd

def contains (m : NameMap α) (name : String) : Bool :=
  (m.find? name).isSome

def keys (m : NameMap α) : List String :=
  m.toList.map Prod.fst

def size (m : NameMap α) : Nat :=
  m.toList.length

def isEmpty (m : NameMap α) : Bool :=
  m.toList.isEmpty

def map (f : α → β) (m : NameMap α) : NameMap β :=
  ⟨m.toList.map fun e => (e.1, f e.2), List.pairwise_map.2 m.sorted⟩

def mapNamed (f : String → α → β) (m : NameMap α) : NameMap β :=
  ⟨m.toList.map fun e => (e.1, f e.1 e.2), List.pairwise_map.2 m.sorted⟩

@[simp] theorem toList_empty : (empty : NameMap α).toList = [] := rfl

@[simp] theorem find?_empty (name : String) : (empty : NameMap α).find? name = none := rfl

theorem find?_mapNamed (f : String → α → β) (m : NameMap α) (name : String) :
    (m.mapNamed f).find? name = (m.find? name).map (f name) := by
  simp only [find?, mapNamed, List.find?_map, Option.map_map, Function.comp_def]
  cases hfound : m.toList.find? fun e => e.1 == name with
  | none => rfl
  | some e =>
    have hname : e.1 = name := by simpa using List.find?_some hfound
    simp [hname]

@[simp] theorem find?_map (f : α → β) (m : NameMap α) (name : String) :
    (m.map f).find? name = (m.find? name).map f :=
  m.find?_mapNamed (fun _ => f) name

private theorem find_insertList_self (name : String) (value : α) (l : List (String × α)) :
    ((insertList name value l).find? fun e => e.1 == name) = some (name, value) := by
  induction l with
  | nil => simp [insertList]
  | cons head rest ih =>
    obtain ⟨k, v⟩ := head
    simp only [insertList]
    split
    · simp
    · split
      · simp
      · rename_i hne
        have : (k == name) = false := by simpa using fun h => hne h.symm
        simp [this, ih]

@[simp] theorem find?_insert_self (m : NameMap α) (name : String) (value : α) :
    (m.insert name value).find? name = some value := by
  simp [find?, insert, find_insertList_self]

private theorem find_insertList_ne {name other : String} (value : α) (hne : other ≠ name)
    (l : List (String × α)) :
    ((insertList name value l).find? fun e => e.1 == other) =
      l.find? fun e => e.1 == other := by
  have hno : (name == other) = false := by simpa using fun h => hne h.symm
  induction l with
  | nil => simp [insertList, hno]
  | cons head rest ih =>
    obtain ⟨k, v⟩ := head
    simp only [insertList]
    split
    · simp [hno]
    · split
      · rename_i heq
        subst heq
        simp [hno]
      · simp only [List.find?_cons, ih]

theorem find?_insert_ne (m : NameMap α) {name other : String} (value : α) (hne : other ≠ name) :
    (m.insert name value).find? other = m.find? other := by
  simp [find?, insert, find_insertList_ne value hne]

theorem find?_insert (m : NameMap α) (name other : String) (value : α) :
    (m.insert name value).find? other =
      if other = name then some value else m.find? other := by
  split
  · rename_i h; subst h; simp
  · rename_i h; exact m.find?_insert_ne value h

@[simp] theorem find?_erase_self (m : NameMap α) (name : String) :
    (m.erase name).find? name = none := by
  simp [find?, erase, List.find?_eq_none]

/-! ## Maps of lists -/

private theorem find?_foldl_of_notMem {name : String} (l : List (String × α)) (m : NameMap α)
    (hname : name ∉ l.map Prod.fst) :
    (l.foldl (fun m e => m.insert e.1 e.2) m).find? name = m.find? name := by
  induction l generalizing m with
  | nil => rfl
  | cons e rest ih =>
    rw [List.map_cons, List.mem_cons, not_or] at hname
    rw [List.foldl_cons, ih _ hname.2, m.find?_insert_ne e.2 hname.1]

private theorem find?_foldl_of_mem {name : String} {value : α} (l : List (String × α))
    (m : NameMap α) (hnodup : (l.map Prod.fst).Nodup) (hmem : (name, value) ∈ l) :
    (l.foldl (fun m e => m.insert e.1 e.2) m).find? name = some value := by
  induction l generalizing m with
  | nil => contradiction
  | cons e rest ih =>
    rw [List.map_cons, List.nodup_cons] at hnodup
    rcases List.mem_cons.1 hmem with rfl | hmem
    · rw [List.foldl_cons, find?_foldl_of_notMem rest _ hnodup.1, find?_insert_self]
    · exact ih _ hnodup.2 hmem

theorem find?_ofList_of_mem {l : List (String × α)} (hnodup : (l.map Prod.fst).Nodup)
    {name : String} {value : α} (hmem : (name, value) ∈ l) :
    (ofList l).find? name = some value :=
  find?_foldl_of_mem l empty hnodup hmem

private theorem mem_of_find?_foldl {name : String} {value : α} (l : List (String × α))
    (m : NameMap α) (h : (l.foldl (fun m e => m.insert e.1 e.2) m).find? name = some value) :
    (name, value) ∈ l ∨ m.find? name = some value := by
  induction l generalizing m with
  | nil => exact .inr h
  | cons e rest ih =>
    rcases ih _ h with hmem | hfind
    · exact .inl (List.mem_cons_of_mem _ hmem)
    · rw [find?_insert] at hfind
      split at hfind
      · rename_i hname
        cases hfind
        exact .inl (by simp [hname])
      · exact .inr hfind

theorem mem_of_find?_ofList {l : List (String × α)} {name : String} {value : α}
    (h : (ofList l).find? name = some value) : (name, value) ∈ l :=
  (mem_of_find?_foldl l empty h).resolve_right nofun

private theorem insertList_of_lt {name : String} (value : α) {l : List (String × α)}
    (h : ∀ e ∈ l, e.1 < name) : insertList name value l = l ++ [(name, value)] := by
  induction l with
  | nil => rfl
  | cons head rest ih =>
    obtain ⟨k, v⟩ := head
    have hk : k < name := h _ List.mem_cons_self
    have hne : name ≠ k := fun heq => String.lt_irrefl k (heq ▸ hk)
    rw [insertList, if_neg fun hlt => String.lt_irrefl k (String.lt_trans hk hlt), if_neg hne,
      ih fun e he => h e (List.mem_cons_of_mem _ he), List.cons_append]

private theorem toList_foldl (l : List (String × α)) (m : NameMap α)
    (h : (m.toList ++ l).Pairwise fun a b => a.1 < b.1) :
    (l.foldl (fun m e => m.insert e.1 e.2) m).toList = m.toList ++ l := by
  induction l generalizing m with
  | nil => exact (List.append_nil _).symm
  | cons e rest ih =>
    have hlt : ∀ e' ∈ m.toList, e'.1 < e.1 := fun e' he' =>
      (List.pairwise_append.1 h).2.2 e' he' e List.mem_cons_self
    have hinsert : (m.insert e.1 e.2).toList = m.toList ++ [e] := insertList_of_lt e.2 hlt
    rw [List.foldl_cons, ih _ (by simpa [hinsert] using h), hinsert, List.append_assoc,
      List.singleton_append]

theorem toList_ofList {l : List (String × α)} (h : l.Pairwise fun a b => a.1 < b.1) :
    (ofList l).toList = l :=
  toList_foldl l empty h

theorem nodup_keys (m : NameMap α) : m.keys.Nodup := by
  refine List.pairwise_map.2 (m.sorted.imp ?_)
  intro a b hlt heq
  exact String.lt_irrefl b.1 (heq ▸ hlt)

theorem mem_toList_iff {m : NameMap α} {name : String} {value : α} :
    (name, value) ∈ m.toList ↔ m.find? name = some value := by
  have hself : ofList m.toList = m := ext_toList (toList_ofList m.sorted)
  constructor
  · intro h
    rw [← hself]
    exact find?_ofList_of_mem m.nodup_keys h
  · intro h
    rw [← hself] at h
    exact mem_of_find?_ofList h

theorem findRev?_toList (m : NameMap α) (name : String) :
    (m.toList.findRev? fun e => e.1 == name).map Prod.snd = m.find? name := by
  rw [List.findRev?_eq_find?_reverse]
  cases hfound : m.toList.reverse.find? fun e => e.1 == name with
  | none =>
      have habsent : ∀ e ∈ m.toList, ¬(e.1 == name) = true := by simpa using hfound
      simp [find?, List.find?_eq_none.2 habsent]
  | some e =>
      have hname : e.1 = name := by simpa using List.find?_some hfound
      have hmem : e ∈ m.toList := List.mem_reverse.1 (List.mem_of_find?_eq_some hfound)
      have hfind : m.find? name = some e.2 := mem_toList_iff.1 (hname ▸ hmem)
      rw [hfind, Option.map_some]

theorem flatMap_toList {m : NameMap α} {name : String} {value : α} {f : String × α → List β}
    (h : m.find? name = some value) (hother : ∀ e : String × α, e.1 ≠ name → f e = []) :
    m.toList.flatMap f = f (name, value) := by
  obtain ⟨before, after, hsplit⟩ := List.append_of_mem (mem_toList_iff.2 h)
  have hnodup := m.nodup_keys
  rw [keys, hsplit, List.map_append, List.map_cons, List.nodup_append, List.nodup_cons] at hnodup
  obtain ⟨-, ⟨hafter, -⟩, hbefore⟩ := hnodup
  have hb : before.flatMap f = [] := List.flatMap_eq_nil_iff.2 fun e he =>
    hother e (hbefore _ (List.mem_map_of_mem he) _ List.mem_cons_self)
  have ha : after.flatMap f = [] := List.flatMap_eq_nil_iff.2 fun e he =>
    hother e fun heq => hafter (List.mem_map.2 ⟨e, he, heq⟩)
  rw [hsplit, List.flatMap_append, List.flatMap_cons, hb, ha, List.nil_append, List.append_nil]

end NameMap

end Nodeflow
