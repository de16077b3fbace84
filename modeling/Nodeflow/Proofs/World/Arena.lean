import Nodeflow.World.Dispatch

/-!
# Entries by their handles

What every change to a world does to the entry a handle finds.  A change under one handle
leaves every other handle alone, also one of the same slot and another generation.
-/

namespace Nodeflow.World

variable {w w' : World} {id other : ObjectId} {entry : Entry}

/-! ## Finding an entry -/

theorem entry?_eq_some :
    w.entry? id = some entry ↔
      ∃ slot, w.slots[id.index.toNat]? = some slot ∧ slot.generation = id.generation ∧
        slot.entry = some entry := by
  simp [ entry?, slot?, Option.bind_eq_some_iff, Option.filter_eq_some_iff, and_assoc]

theorem generation_eq (hentry : w.entry? id = some entry) {slot : Slot}
    (hslot : w.slots[id.index.toNat]? = some slot) : slot.generation = id.generation := by
  obtain ⟨slot', hslot', hgeneration, -⟩ := entry?_eq_some.1 hentry
  rw [hslot] at hslot'
  cases hslot'
  exact hgeneration

theorem entry?_modify_ne {f : Slot → Slot} (hne : other ≠ id)
    (hslot : ∀ slot, w.slots[id.index.toNat]? = some slot → slot.generation = id.generation ∧
      ((f slot).generation = id.generation ∨ (f slot).entry = none)) :
    entry? ({ w with slots := w.slots.modify id.index.toNat f } : World) other =
      w.entry? other := by
  by_cases hindex : other.index = id.index
  · have hgeneration : id.generation ≠ other.generation := by
      intro hgeneration
      apply hne
      cases other
      cases id
      simp_all
    simp only [ entry?, slot?, hindex, List.getElem?_modify_eq]
    cases hat : w.slots[id.index.toNat]? with
    | none => rfl
    | some slot =>
        obtain ⟨hbefore, hafter⟩ := hslot slot hat
        rcases hafter with hafter | hafter
        · simp [Option.filter, hafter, hbefore, hgeneration]
        · simp [Option.filter, hbefore, hgeneration]
          grind
  · have hplace : id.index.toNat ≠ other.index.toNat := by
      intro hplace
      exact hindex (UInt32.toNat_inj.1 hplace.symm)
    simp [ entry?, slot?, hplace]

/-! ## Replacing an entry -/

theorem entry?_setEntry_self (hentry : w.entry? id = some entry) (entry' : Entry) :
    entry? (w.setEntry id entry') id = some entry' := by
  obtain ⟨slot, hslot, hgeneration, -⟩ := entry?_eq_some.1 hentry
  exact entry?_eq_some.2 ⟨{ slot with entry := some entry' }, by simp [setEntry, hslot],
    hgeneration, rfl⟩

theorem entry?_setEntry_ne (hentry : w.entry? id = some entry) (entry' : Entry)
    (hne : other ≠ id) : entry? (w.setEntry id entry') other = w.entry? other := by
  refine entry?_modify_ne hne fun slot hslot => ?_
  have hgeneration := generation_eq hentry hslot
  exact ⟨hgeneration, .inl hgeneration⟩

theorem entry?_setEntry (hentry : w.entry? id = some entry) (entry' : Entry) :
    entry? (w.setEntry id entry') other = if other = id then some entry' else w.entry? other := by
  split
  · rename_i h
    exact h ▸ entry?_setEntry_self hentry entry'
  · rename_i h
    exact entry?_setEntry_ne hentry entry' h

theorem setEntry_self (hentry : w.entry? id = some entry) : w.setEntry id entry = w := by
  obtain ⟨slot, hslot, -, hhere⟩ := entry?_eq_some.1 hentry
  have hslots : w.slots.modify id.index.toNat (fun slot => { slot with entry := some entry }) =
      w.slots := by
    refine List.ext_getElem? fun i => ?_
    by_cases hi : id.index.toNat = i
    · subst hi
      simp [hslot, ← hhere]
    · simp [hi]
  simp only [setEntry, hslots]

theorem setEntry_setEntry (w : World) (id : ObjectId) (first second : Entry) :
    (w.setEntry id first).setEntry id second = w.setEntry id second := by
  simp only [setEntry, List.modify_modify_eq]
  rfl

/-! ## Parking -/

section Park

variable (w : World) (owner : ObjectId) (ending : Ending)

@[simp] theorem park_slots : (w.park owner ending).slots = w.slots := by cases ending <;> rfl

@[simp] theorem park_free : (w.park owner ending).free = w.free := by cases ending <;> rfl

@[simp] theorem park_classes : (w.park owner ending).classes = w.classes := by
  cases ending <;> rfl

@[simp] theorem park_registry : (w.park owner ending).registry = w.registry := by
  cases ending <;> rfl

@[simp] theorem park_config : (w.park owner ending).config = w.config := by
  cases ending <;> rfl

@[simp] theorem entry?_park : entry? (w.park owner ending) id = w.entry? id := by
  cases ending <;> rfl

end Park

/-! ## Taking an object out -/

theorem destroy_eq_some {object : Object} :
    w.destroy id = some (w', object) ↔
      ∃ entry, w.entry? id = some entry ∧ entry.object = object ∧
        w' =
          { w with
            slots := w.slots.modify id.index.toNat fun slot => ⟨slot.generation + 1, none⟩
            free := id.index :: w.free
            scheduler := w.scheduler.cancel id } := by
  unfold destroy
  cases w.entry? id with
  | none => simp
  | some entry => simp [eq_comm, and_comm]

theorem entry?_destroy {object : Object} (hdestroy : w.destroy id = some (w', object)) :
    w'.entry? other = if other = id then none else w.entry? other := by
  obtain ⟨entry, hentry, -, rfl⟩ := destroy_eq_some.1 hdestroy
  split
  · rename_i h
    subst h
    refine Option.eq_none_iff_forall_ne_some.2 fun entry' hentry' => ?_
    obtain ⟨slot, hslot, -, hhere⟩ := entry?_eq_some.1 hentry'
    rw [List.getElem?_modify_eq] at hslot
    obtain ⟨slot', -, rfl⟩ := Option.map_eq_some_iff.1 hslot
    contradiction
  · rename_i h
    exact entry?_modify_ne h fun slot hslot => ⟨generation_eq hentry hslot, .inr rfl⟩

/-! ## Putting an object in -/

def opened (w : World) : World :=
  { w with slots := w.vacancy.2.1, free := w.vacancy.2.2 }

def nextHandle (w : World) : ObjectId :=
  ⟨w.vacancy.1, (w.opened.slots[w.vacancy.1.toNat]?.map Slot.generation).getD 0⟩

theorem spawn_eq_ok {object : Object} :
    w.spawn object = .ok (w', id) ↔
      w.classes.contains object.className = true ∧ id = w.nextHandle ∧
        w' = w.opened.setEntry w.nextHandle
          ⟨object, bindGraphs w.classes object.className w.nextHandle⟩ := by
  unfold spawn
  split
  · rename_i hclass
    simp only [hclass, Except.ok.injEq, Prod.mk.injEq, true_and]
    rw [and_comm, @eq_comm _ _ w', @eq_comm _ _ id]
    rfl
  · rename_i hclass
    simp [hclass]

@[simp] theorem entry?_opened (w : World) : w.opened.entry? id = w.entry? id := by
  unfold opened vacancy
  cases w.free with
  | cons index free => rfl
  | nil =>
      simp only [ entry?, slot?, List.getElem?_append]
      split
      · rfl
      · rename_i hout
        rw [List.getElem?_eq_none (Nat.le_of_not_lt hout)]
        cases id.index.toNat - w.slots.length with
        | zero => simp [Option.filter]
        | succ _ => rfl

theorem generation_nextHandle {slot : Slot}
    (hslot : w.opened.slots[w.nextHandle.index.toNat]? = some slot) :
    slot.generation = w.nextHandle.generation := by
  have hslot' : w.opened.slots[w.vacancy.1.toNat]? = some slot := hslot
  simp [nextHandle, hslot']

theorem entry?_setEntry_nextHandle (w : World) (entry : Entry) :
    entry? (w.opened.setEntry w.nextHandle entry) w.nextHandle =
      w.opened.slots[w.nextHandle.index.toNat]?.map fun _ => entry := by
  cases hslot : w.opened.slots[w.nextHandle.index.toNat]? with
  | none => simp [ entry?, slot?, setEntry, hslot]
  | some slot =>
      have hgeneration := generation_nextHandle hslot
      simp [ entry?, slot?, setEntry, hslot, Option.filter, hgeneration]

theorem entry?_setEntry_nextHandle_ne (w : World) (entry : Entry) (hne : other ≠ w.nextHandle) :
    entry? (w.opened.setEntry w.nextHandle entry) other = w.entry? other := by
  rw [← entry?_opened w]
  refine entry?_modify_ne hne fun slot hslot => ?_
  have hgeneration := generation_nextHandle hslot
  exact ⟨hgeneration, .inl hgeneration⟩

theorem entry?_spawn_ne {object : Object} (hspawn : w.spawn object = .ok (w', id))
    (hne : other ≠ id) : w'.entry? other = w.entry? other := by
  obtain ⟨-, rfl, rfl⟩ := spawn_eq_ok.1 hspawn
  exact entry?_setEntry_nextHandle_ne w _ hne

theorem eq_of_entry?_spawn {object : Object} (hspawn : w.spawn object = .ok (w', id))
    (hentry : w'.entry? id = some entry) :
    entry = ⟨object, bindGraphs w.classes object.className id⟩ := by
  obtain ⟨-, rfl, rfl⟩ := spawn_eq_ok.1 hspawn
  rw [entry?_setEntry_nextHandle] at hentry
  obtain ⟨slot, -, rfl⟩ := Option.map_eq_some_iff.1 hentry
  rfl

end Nodeflow.World
