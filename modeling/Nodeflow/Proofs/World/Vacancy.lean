import Nodeflow.Proofs.World.Operation

/-!
# Vacant slots

The free list names the vacant slots, each once, and slots are never given up.  As long as
32-bit indices tell the slots apart, a spawn therefore takes no slot from a live object.
-/

namespace Nodeflow

def VacantAt (slots : List Slot) (i : UInt32) : Prop :=
  ∃ slot, slots[i.toNat]? = some slot ∧ slot.entry = none

theorem vacantAt_modify_self {slots : List Slot} {i : UInt32} {f : Slot → Slot} {vacant : Prop}
    (hf : ∀ slot, (f slot).entry = none ↔ vacant) (hin : i.toNat < slots.length) :
    VacantAt (slots.modify i.toNat f) i ↔ vacant := by
  obtain ⟨slot, hslot⟩ : ∃ slot, slots[i.toNat]? = some slot := ⟨_, List.getElem?_eq_getElem hin⟩
  simp [VacantAt, hslot, hf]

theorem vacantAt_modify_ne {slots : List Slot} {i j : UInt32} {f : Slot → Slot} (hne : i ≠ j) :
    VacantAt (slots.modify i.toNat f) j ↔ VacantAt slots j := by
  have hplace : i.toNat ≠ j.toNat := by
    intro hplace
    exact hne (UInt32.toNat_inj.1 hplace)
  simp [VacantAt, hplace]

namespace World

variable {w w' : World} {id : ObjectId} {entry : Entry}

structure Tidy (w : World) : Prop where
  nodup : w.free.Nodup
  vacant : ∀ i, i ∈ w.free ↔ VacantAt w.slots i

theorem index_lt (hentry : w.entry? id = some entry) : id.index.toNat < w.slots.length := by
  obtain ⟨slot, hslot, -, -⟩ := entry?_eq_some.1 hentry
  exact (List.getElem?_eq_some_iff.1 hslot).1

theorem not_vacantAt (hentry : w.entry? id = some entry) : ¬VacantAt w.slots id.index := by
  rintro ⟨slot, hslot, hvacant⟩
  obtain ⟨slot', hslot', -, hhere⟩ := entry?_eq_some.1 hentry
  simp_all

namespace Tidy

theorem setEntry (h : Tidy w) (hentry : w.entry? id = some entry) (entry' : Entry) :
    Tidy (w.setEntry id entry') := by
  refine ⟨h.nodup, fun i => (h.vacant i).trans ?_⟩
  by_cases hi : id.index = i
  · subst hi
    have hfilled := vacantAt_modify_self (f := fun slot => { slot with entry := some entry' })
      (fun slot => ⟨nofun, False.elim⟩) (index_lt hentry)
    exact iff_of_false (not_vacantAt hentry) hfilled.1
  · exact (vacantAt_modify_ne hi).symm

theorem destroy (h : Tidy w) {object : Object} (hdestroy : w.destroy id = some (w', object)) :
    Tidy w' := by
  obtain ⟨entry, hentry, -, rfl⟩ := destroy_eq_some.1 hdestroy
  have hlive : id.index ∉ w.free := by
    intro hfree
    exact not_vacantAt hentry ((h.vacant _).1 hfree)
  constructor
  · exact List.nodup_cons.2 ⟨hlive, h.nodup⟩
  · intro i
    by_cases hi : id.index = i
    · subst hi
      have hvacated := vacantAt_modify_self (f := fun slot => ⟨slot.generation + 1, none⟩)
        (fun slot => ⟨fun _ => trivial, fun _ => rfl⟩) (index_lt hentry)
      exact iff_of_true (List.mem_cons_self ..) (hvacated.2 trivial)
    · refine Iff.trans ?_ (vacantAt_modify_ne hi).symm
      simp [h.vacant, Ne.symm hi]

theorem spawn (h : Tidy w) {object : Object} (hspawn : w.spawn object = .ok (w', id)) :
    Tidy w' := by
  obtain ⟨-, rfl, rfl⟩ := spawn_eq_ok.1 hspawn
  obtain ⟨hnodup, hvacant⟩ := h
  have hfilled : ∀ (entry : Entry) (slot : Slot),
      ({ slot with entry := some entry } : Slot).entry = none ↔ False :=
    fun entry slot => ⟨nofun, False.elim⟩
  cases hfree : w.free with
  | cons index rest =>
      rw [hfree] at hnodup hvacant
      obtain ⟨hindex, hrest⟩ := List.nodup_cons.1 hnodup
      have hopened : w.opened = { w with free := rest } := by simp [opened, vacancy, hfree]
      have hplace : w.nextHandle.index = index := by simp [nextHandle, vacancy, hfree]
      obtain ⟨slot, hslot, -⟩ := (hvacant index).1 (List.mem_cons_self ..)
      have hin := (List.getElem?_eq_some_iff.1 hslot).1
      rw [hopened]
      refine ⟨hrest, fun i => ?_⟩
      simp only [World.setEntry, hplace]
      by_cases hi : index = i
      · subst hi
        exact iff_of_false hindex (vacantAt_modify_self (hfilled _) hin).1
      · rw [vacantAt_modify_ne hi, ← hvacant i]
        simp [Ne.symm hi]
  | nil =>
      rw [hfree] at hvacant
      have hopened : w.opened = { w with slots := w.slots ++ [⟨0, none⟩], free := [] } := by
        simp [opened, vacancy, hfree]
      have hplace : w.nextHandle.index = UInt32.ofNat w.slots.length := by
        simp [nextHandle, vacancy, hfree]
      rw [hopened]
      refine ⟨List.nodup_nil, fun i => iff_of_false List.not_mem_nil ?_⟩
      simp only [World.setEntry, hplace]
      have hnew : (UInt32.ofNat w.slots.length).toNat <
          (w.slots ++ [(⟨0, none⟩ : Slot)]).length := by
        have := Nat.mod_le w.slots.length UInt32.size
        simp
        omega
      by_cases hi : UInt32.ofNat w.slots.length = i
      · subst hi
        exact (vacantAt_modify_self (hfilled _) hnew).1
      · rw [vacantAt_modify_ne hi]
        rintro ⟨slot, hslot, hnone⟩
        rcases Nat.lt_trichotomy i.toNat w.slots.length with hold | hlast | hbeyond
        · rw [List.getElem?_append_left hold] at hslot
          exact List.not_mem_nil ((hvacant i).2 ⟨slot, hslot, hnone⟩)
        · apply hi
          rw [← hlast, UInt32.ofNat_toNat]
        · rw [List.getElem?_eq_none (by simp; omega)] at hslot
          contradiction

theorem work (h : Tidy w) (hwork : Work w w') : Tidy w' := by
  cases hwork with
  | object object hentry => exact h.setEntry hentry _
  | segment hentry _ _ =>
      obtain ⟨hnodup, hvacant⟩ := h.setEntry hentry _
      exact ⟨by simpa using hnodup, by simpa using hvacant⟩

end Tidy

theorem Reached.tidy (hw : Reached w) : Tidy w := by
  refine hw.preserve (motive := Tidy) ?empty ?change
  case empty =>
    intro config registry
    constructor
    · exact List.nodup_nil
    · intro i
      simp [World.empty, VacantAt]
  case change =>
    intro w w' _ hw hchange
    cases hchange with
    | register _ _ => exact ⟨hw.nodup, hw.vacant⟩
    | spawn hspawn => exact hw.spawn hspawn
    | destroy hdestroy => exact hw.destroy hdestroy
    | work hwork => exact hw.work hwork
    | poll dt => exact ⟨hw.nodup, hw.vacant⟩

/-! ## Slots are never given up -/

theorem length_opened (w : World) : w.slots.length ≤ w.opened.slots.length := by
  unfold opened vacancy
  cases w.free with
  | nil => simp
  | cons index rest => exact Nat.le_refl _

theorem Work.length_slots (hwork : Work w w') : w'.slots.length = w.slots.length := by
  cases hwork with
  | object _ _ => simp [setEntry]
  | segment _ _ _ => simp [setEntry]

theorem Change.length_slots_le (hchange : Change w w') : w.slots.length ≤ w'.slots.length := by
  cases hchange with
  | register _ _ => exact Nat.le_refl _
  | spawn hspawn =>
      obtain ⟨-, -, rfl⟩ := spawn_eq_ok.1 hspawn
      simpa [setEntry] using length_opened w
  | destroy hdestroy =>
      obtain ⟨-, -, -, rfl⟩ := destroy_eq_some.1 hdestroy
      simp
  | work hwork => exact Nat.le_of_eq hwork.length_slots.symm
  | poll dt => exact Nat.le_refl _

theorem Changes.length_slots_le (h : Changes w w') : w.slots.length ≤ w'.slots.length := by
  induction h with
  | refl => exact Nat.le_refl _
  | tail _ hchange ih => exact Nat.le_trans ih hchange.length_slots_le

/-! ## New handles -/

theorem Tidy.entry?_of_spawn (h : Tidy w) {object : Object}
    (hspawn : w.spawn object = .ok (w', id)) (hslots : w'.slots.length ≤ UInt32.size) :
    w.entry? id = none := by
  obtain ⟨-, rfl, rfl⟩ := spawn_eq_ok.1 hspawn
  refine Option.eq_none_iff_forall_ne_some.2 fun entry hentry => ?_
  cases hfree : w.free with
  | cons index rest =>
      have hplace : w.nextHandle.index = index := by simp [nextHandle, vacancy, hfree]
      apply not_vacantAt hentry
      rw [hplace, ← h.vacant, hfree]
      exact List.mem_cons_self ..
  | nil =>
      have hplace : w.nextHandle.index = UInt32.ofNat w.slots.length := by
        simp [nextHandle, vacancy, hfree]
      have hin := index_lt hentry
      have hroom : w.slots.length + 1 ≤ UInt32.size := by
        simpa [World.setEntry, opened, vacancy, hfree] using hslots
      rw [hplace, UInt32.toNat_ofNat_of_lt' hroom] at hin
      omega

/-! ## More objects than indices -/

def crowd (n : Nat) (object : Object) : List Operation :=
  List.replicate n (.spawn object)

section Crowd

variable {object : Object} (hfree : w.free = [])
  (hclass : w.classes.contains object.className = true)
include hfree hclass

theorem perform_spawn_appends (hroom : w.slots.length < UInt32.size) :
    ∃ slot, (w.perform (.spawn object)).1 = { w with slots := w.slots ++ [slot] } := by
  have hspawn : w.spawn object = .ok (_, w.nextHandle) := spawn_eq_ok.2 ⟨hclass, rfl, rfl⟩
  have hplace : w.nextHandle.index.toNat = w.slots.length := by
    simp only [nextHandle, vacancy, hfree]
    exact UInt32.toNat_ofNat_of_lt' hroom
  have hopened : w.opened = { w with slots := w.slots ++ [⟨0, none⟩] } := by
    simp only [opened, vacancy, hfree]
  simp only [perform, hspawn, hopened, setEntry, hplace]
  exact ⟨_, congrArg (fun slots => ({ w with slots } : World))
    (List.modifyTailIdx_add _ 0 w.slots [⟨0, none⟩])⟩

theorem performAll_crowd {n : Nat} (hroom : w.slots.length + n ≤ UInt32.size) :
    ∃ added, added.length = n ∧
      w.performAll (crowd n object) = { w with slots := w.slots ++ added } := by
  induction n generalizing w with
  | zero => exact ⟨[], rfl, by simp [crowd, performAll]⟩
  | succ n ih =>
      obtain ⟨slot, hslot⟩ := perform_spawn_appends hfree hclass (by omega)
      have hnext : (w.perform (.spawn object)).1.slots.length + n ≤ UInt32.size := by
        rw [hslot]
        simp only [List.length_append, List.length_singleton]
        omega
      obtain ⟨added, hlength, hadded⟩ := ih (by rw [hslot]; exact hfree)
        (by rw [hslot]; exact hclass) hnext
      refine ⟨slot :: added, by rw [List.length_cons, hlength], ?_⟩
      rw [crowd, List.replicate_succ, performAll]
      refine hadded.trans ?_
      rw [hslot, List.append_assoc, List.singleton_append]

/--
The object for which there is no index left takes the place of the first one, and leaves the
classes and the scheduler as they are.
-/
theorem performAll_crowd_overruns {entry : Entry} {generation : UInt32}
    (hentry : w.entry? ⟨0, generation⟩ = some entry) {n : Nat}
    (hroom : w.slots.length + n = UInt32.size) :
    let crowded := w.performAll (crowd (n + 1) object)
    crowded.scheduler = w.scheduler ∧
      crowded.entry? ⟨0, generation⟩ =
        some ⟨object, bindGraphs w.classes object.className ⟨0, generation⟩⟩ := by
  intro crowded
  obtain ⟨added, hlength, hadded⟩ := performAll_crowd hfree hclass (Nat.le_of_eq hroom)
  let full : World := { w with slots := w.slots ++ added }
  have hcrowded : crowded = (full.perform (.spawn object)).1 := by
    simp only [crowded, crowd, List.replicate_succ']
    rw [performAll_append]
    exact congrArg (fun world => (perform world (.spawn object)).1) hadded
  obtain ⟨slot, hslot, hgeneration, -⟩ := entry?_eq_some.1 hentry
  have hindex : full.vacancy.1 = 0 := by
    have hsize : (w.slots ++ added).length = UInt32.size := by
      rw [List.length_append, hlength, hroom]
    simp only [vacancy, full, hfree, hsize]
    rfl
  have hfirst : full.opened.slots[(0 : UInt32).toNat]? = some slot := by
    have hin := (List.getElem?_eq_some_iff.1 hslot).1
    simp only [opened, vacancy, full, hfree, List.append_assoc]
    rw [List.getElem?_append_left hin]
    exact hslot
  have hhandle : full.nextHandle = ⟨0, generation⟩ := by
    simp only [nextHandle, hindex, hfirst, Option.map_some, Option.getD_some]
    rw [hgeneration]
  have hspawn : full.spawn object = .ok (_, full.nextHandle) := spawn_eq_ok.2 ⟨hclass, rfl, rfl⟩
  rw [hcrowded]
  simp only [perform, hspawn]
  refine ⟨rfl, ?_⟩
  rw [← hhandle, entry?_setEntry_nextHandle, hhandle, hfirst]
  rfl

end Crowd

end World

end Nodeflow
