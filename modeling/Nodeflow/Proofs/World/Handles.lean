import Mathlib
import Nodeflow.Proofs.World.Ownership

/-!
# Handles are given once

A slot's generation counts how often the slot has been emptied, so two objects that share a
slot have different handles.  As long as indices and generations of 32 bits suffice, no
handle is given twice, and a handle finds its own object for as long as the object is in the
world, and nothing before and after.
-/

namespace Nodeflow

def Answer.handle? : Answer → Option ObjectId
  | .spawned (.ok id) => some id
  | _ => none

namespace World

def handles (w : World) (operations : List Operation) : List ObjectId :=
  (w.answers operations).filterMap Answer.handle?

def emptiedBy (w : World) (i : UInt32) : Operation → Nat
  | .destroy id => if id.index = i ∧ w.contains id then 1 else 0
  | _ => 0

def emptied (w : World) (i : UInt32) : List Operation → Nat
  | [] => 0
  | operation :: rest => w.emptiedBy i operation + (w.perform operation).1.emptied i rest

/-! ## What occupies the slots -/

variable {w w' : World} {id : ObjectId}

theorem contains_congr (hoccupancy : w'.slots.map Slot.occupancy = w.slots.map Slot.occupancy)
    (id : ObjectId) : w'.contains id = w.contains id := by
  rw [contains, contains, entry?_isSome, entry?_isSome, hoccupancy]

theorem occupancy_dispatch (w : World) (id : ObjectId) (declared event : String)
    (args : EventArgs) :
    (w.dispatch id declared event args).1.slots.map Slot.occupancy =
      w.slots.map Slot.occupancy := by
  unfold dispatch
  split
  · rfl
  · rename_i entry hentry
    split
    · simp only
      split
      · exact occupancy_setEntry hentry _
      · rw [park_slots]
        exact occupancy_setEntry hentry _
    · rfl

theorem occupancy_resumeParked (w : World) (p : Parked) :
    (w.resumeParked p).1.slots.map Slot.occupancy = w.slots.map Slot.occupancy := by
  rcases w.resumeParked_cases p with hdropped | ⟨entry, graph, hentry, hgraph⟩
  · rw [hdropped]
  · rw [resumeParked_of_graph hentry hgraph, park_slots]
    exact occupancy_setEntry hentry _

theorem occupancy_resumeAll (w : World) (ready : List Parked) :
    (w.resumeAll ready).1.slots.map Slot.occupancy = w.slots.map Slot.occupancy :=
  resumeAll_induction
    (motive := fun w w' => w'.slots.map Slot.occupancy = w.slots.map Slot.occupancy)
    (fun _ => rfl) (fun h => h.trans (occupancy_resumeParked _ _)) w ready

/-! ## Accounts of slots and handles -/

/--
A world in which some handles have been given, and every slot has been emptied so many times.
The generation of a slot is that number, and a handle is out of date or finds its object.
-/
structure Accounted (given : List ObjectId) (times : UInt32 → Nat) (w : World) : Prop where
  nodup : given.Nodup
  generation : ∀ i slot, w.slots[i.toNat]? = some slot → slot.generation = UInt32.ofNat (times i)
  unused : ∀ i, w.slots.length ≤ i.toNat → times i = 0
  live : ∀ id, w.contains id = true → id ∈ given
  dated : ∀ id ∈ given, id.generation.toNat < times id.index ∨ w.contains id = true

namespace Accounted

variable {given : List ObjectId} {times : UInt32 → Nat}

theorem empty (config : RuntimeConfig) (registry : Registry) :
    Accounted [] (fun _ => 0) (World.empty config registry) := by
  refine ⟨List.nodup_nil, ?_, fun _ _ => rfl, ?_, nofun⟩
  · intro i slot hslot
    simp [World.empty] at hslot
  · intro id hlive
    simp [contains, entry?, slot?, World.empty] at hlive

theorem congr (h : Accounted given times w)
    (hoccupancy : w'.slots.map Slot.occupancy = w.slots.map Slot.occupancy) :
    Accounted given times w' := by
  have hlength : w'.slots.length = w.slots.length := by
    simpa using congrArg List.length hoccupancy
  refine ⟨h.nodup, ?_, fun i hi => h.unused i (hlength ▸ hi), ?_, ?_⟩
  · intro i slot hslot
    have hsame := congrArg (fun l => l[i.toNat]?) hoccupancy
    simp only [List.getElem?_map, hslot, Option.map_some] at hsame
    obtain ⟨slot', hslot', hoccupied⟩ := Option.map_eq_some_iff.1 hsame.symm
    have hgeneration : slot'.generation = slot.generation := congrArg Prod.fst hoccupied
    exact hgeneration ▸ h.generation i slot' hslot'
  · intro id hlive
    exact h.live id (contains_congr hoccupancy id ▸ hlive)
  · intro id hid
    rw [contains_congr hoccupancy id]
    exact h.dated id hid

theorem generation_eq (h : Accounted given times w) (htimes : ∀ i, times i < UInt32.size)
    (hlive : w.contains id = true) : id.generation.toNat = times id.index := by
  obtain ⟨entry, hentry⟩ := Option.isSome_iff_exists.1 hlive
  obtain ⟨slot, hslot, hgeneration, -⟩ := entry?_eq_some.1 hentry
  rw [← hgeneration, h.generation _ _ hslot, UInt32.toNat_ofNat_of_lt' (htimes _)]

theorem destroy (h : Accounted given times w) (htimes : ∀ i, times i < UInt32.size)
    {object : Object} (hdestroy : w.destroy id = some (w', object)) :
    Accounted given (fun i => times i + if id.index = i then 1 else 0) w' := by
  have hafter : ∀ other, w'.contains other = true ↔ other ≠ id ∧ w.contains other = true := by
    intro other
    simp only [contains, entry?_destroy hdestroy]
    by_cases hother : other = id <;> simp [hother]
  obtain ⟨entry, hentry, -, hworld⟩ := destroy_eq_some.1 hdestroy
  have hlive : w.contains id = true := by simp [contains, hentry]
  have hslots : w'.slots =
      w.slots.modify id.index.toNat fun slot => ⟨slot.generation + 1, none⟩ := by
    rw [hworld]
  refine ⟨h.nodup, ?_, ?_, fun other ho => h.live other ((hafter other).1 ho).2, ?_⟩
  · intro i slot hslot
    rw [hslots] at hslot
    by_cases hi : id.index = i
    · subst hi
      rw [List.getElem?_modify_eq] at hslot
      obtain ⟨slot', hslot', rfl⟩ := Option.map_eq_some_iff.1 hslot
      simp [h.generation _ _ hslot', UInt32.ofNat_add]
    · have hplace : id.index.toNat ≠ i.toNat := fun hsame => hi (UInt32.toNat_inj.1 hsame)
      simp only [List.getElem?_modify, if_neg hplace, id_map'] at hslot
      simp [h.generation _ _ hslot, hi]
  · intro i hi
    have hin := index_lt hentry
    have hlength : w'.slots.length = w.slots.length := by simp [hslots]
    have hne : id.index ≠ i := by
      rintro rfl
      omega
    simpa [hne] using h.unused i (hlength ▸ hi)
  · intro other hother
    by_cases hsame : other = id
    · subst hsame
      have hup := h.generation_eq htimes hlive
      exact .inl (by simp [hup])
    · rcases h.dated other hother with hout | hin
      · exact .inl (by omega)
      · exact .inr ((hafter other).2 ⟨hsame, hin⟩)

theorem opened (h : Accounted given times w) {i : UInt32} {slot : Slot}
    (hslot : w.opened.slots[i.toNat]? = some slot) :
    slot.generation = UInt32.ofNat (times i) := by
  unfold World.opened vacancy at hslot
  cases hfree : w.free with
  | cons index rest =>
      simp only [hfree] at hslot
      exact h.generation i slot hslot
  | nil =>
      simp only [hfree] at hslot
      rcases Nat.lt_or_ge i.toNat w.slots.length with hold | hnew
      · rw [List.getElem?_append_left hold] at hslot
        exact h.generation i slot hslot
      · have hzero := h.unused i hnew
        rw [List.getElem?_append_right hnew, List.getElem?_singleton] at hslot
        split at hslot
        · cases hslot
          rw [hzero]
          rfl
        · contradiction

theorem spawn (h : Accounted given times w) (htimes : ∀ i, times i < UInt32.size) (hw : Tidy w)
    {object : Object} (hspawn : w.spawn object = .ok (w', id))
    (hslots : w'.slots.length ≤ UInt32.size) : Accounted (given ++ [id]) times w' := by
  have hfresh : w.entry? id = none := hw.entry?_of_spawn hspawn hslots
  have hself := entry?_spawn_self hw hspawn
  have hafter : ∀ other, w'.contains other = true ↔ other = id ∨ w.contains other = true := by
    intro other
    by_cases hother : other = id
    · simp [contains, hother, hself]
    · simp [contains, entry?_spawn_ne hspawn hother, hother]
  obtain ⟨-, -, hworld⟩ := spawn_eq_ok.1 hspawn
  have hlength : w'.slots.length = w.opened.slots.length := by simp [hworld, World.setEntry]
  have hgeneration : ∀ i slot, w'.slots[i.toNat]? = some slot →
      slot.generation = UInt32.ofNat (times i) := by
    intro i slot hslot
    rw [hworld, World.setEntry, List.getElem?_modify] at hslot
    obtain ⟨slot', hslot', rfl⟩ := Option.map_eq_some_iff.1 hslot
    have hopened := h.opened hslot'
    split <;> exact hopened
  have hnew : id ∉ given := by
    intro hgiven
    rcases h.dated id hgiven with hout | hin
    · obtain ⟨slot, hslot, hid, -⟩ := entry?_eq_some.1 hself
      rw [← hid, hgeneration _ _ hslot, UInt32.toNat_ofNat_of_lt' (htimes _)] at hout
      exact Nat.lt_irrefl _ hout
    · simp [contains, hfresh] at hin
  refine ⟨?_, hgeneration, ?_, ?_, ?_⟩
  · refine List.nodup_append.2 ⟨h.nodup, by simp, ?_⟩
    rintro other hother _ hid rfl
    exact hnew (List.mem_singleton.1 hid ▸ hother)
  · intro i hi
    have hgrown := length_opened w
    exact h.unused i (by omega)
  · intro other hother
    rcases (hafter other).1 hother with rfl | hlive
    · simp
    · exact List.mem_append_left _ (h.live other hlive)
  · intro other hother
    rcases List.mem_append.1 hother with hold | hlast
    · exact (h.dated other hold).imp_right fun hlive => (hafter other).2 (.inr hlive)
    · exact .inr ((hafter other).2 (.inl (List.mem_singleton.1 hlast)))

theorem perform (h : Accounted given times w) (htimes : ∀ i, times i < UInt32.size) (hw : Tidy w)
    (operation : Operation) (hslots : (w.perform operation).1.slots.length ≤ UInt32.size) :
    Accounted (given ++ ((w.perform operation).2.handle?).toList)
      (fun i => times i + w.emptiedBy i operation) (w.perform operation).1 := by
  have hsame : ∀ {v : World}, v.slots.map Slot.occupancy = w.slots.map Slot.occupancy →
      Accounted (given ++ (none : Option ObjectId).toList) (fun i => times i + 0) v := by
    intro v hoccupancy
    simpa using h.congr hoccupancy
  cases operation with
  | registerNative name parent =>
      simp only [World.perform, registerNative, register]
      cases w.classes.insert (.native name parent) <;> exact hsame rfl
  | registerGenerated name parent d =>
      simp only [World.perform, registerGenerated, register]
      cases w.classes.insert (.generated name parent (d.build w.registry w.config)) <;>
        exact hsame rfl
  | spawn object =>
      simp only [World.perform] at hslots ⊢
      cases hspawn : w.spawn object with
      | error e => exact hsame rfl
      | ok result =>
          rw [hspawn] at hslots
          exact h.spawn htimes hw hspawn hslots
  | destroy id =>
      simp only [World.perform]
      cases hdestroy : w.destroy id with
      | none =>
          have hdead : w.contains id = false := by simpa [World.destroy, contains] using hdestroy
          simpa [emptiedBy, hdead, Answer.handle?] using h
      | some result =>
          obtain ⟨entry, hentry, -, -⟩ := destroy_eq_some.1 hdestroy
          have hlive : w.contains id = true := by simp [contains, hentry]
          simpa [emptiedBy, hlive, Answer.handle?] using h.destroy htimes hdestroy
  | setField id name value =>
      simp only [World.perform, World.setField]
      cases hentry : w.entry? id with
      | none => exact hsame rfl
      | some entry => exact hsame (occupancy_setEntry hentry _)
  | dispatch id declared event args => exact hsame (occupancy_dispatch w id declared event args)
  | tick dt => exact hsame (occupancy_resumeAll _ _)

theorem performAll (h : Accounted given times w) (hw : Reached w) (operations : List Operation)
    (htimes : ∀ i, times i + w.emptied i operations < UInt32.size)
    (hslots : (w.performAll operations).slots.length ≤ UInt32.size) :
    Accounted (given ++ w.handles operations) (fun i => times i + w.emptied i operations)
      (w.performAll operations) := by
  induction operations generalizing w given times with
  | nil => simpa [handles, answers, emptied, World.performAll] using h
  | cons operation rest ih =>
      have hnow : ∀ i, times i < UInt32.size := fun i => by
        have := htimes i
        omega
      have hroom : (w.perform operation).1.slots.length ≤ UInt32.size :=
        Nat.le_trans (performAll_changes _ rest).length_slots_le hslots
      have hnext := ih (h.perform hnow hw.tidy operation hroom)
        (hw.changes (perform_changes w operation))
        (fun i => by simpa [emptied, Nat.add_assoc] using htimes i) hslots
      have hgiven : w.handles (operation :: rest) =
          ((w.perform operation).2.handle?).toList ++ (w.perform operation).1.handles rest := by
        simp only [handles, answers, List.filterMap_cons]
        cases (w.perform operation).2.handle? <;> rfl
      simpa [hgiven, emptied, World.performAll, Nat.add_assoc] using hnext

end Accounted

/-! ## Live handles in order -/

theorem mem_ids (hslots : w.slots.length ≤ UInt32.size) :
    id ∈ w.ids ↔ w.contains id = true := by
  have hlive : w.contains id = true ↔ ∃ slot, w.slots[id.index.toNat]? = some slot ∧
      slot.generation = id.generation ∧ slot.entry.isSome = true := by
    simp only [contains, Option.isSome_iff_exists, entry?_eq_some]
    grind
  rw [hlive]
  simp only [ids, List.mem_map, List.mem_filter, Prod.exists, List.mk_mem_zipIdx_iff_getElem?]
  constructor
  · rintro ⟨slot, i, ⟨hslot, hsome⟩, rfl⟩
    have hi : i < UInt32.size :=
      Nat.lt_of_lt_of_le (List.getElem?_eq_some_iff.1 hslot).1 hslots
    exact ⟨slot, by rwa [UInt32.toNat_ofNat_of_lt' hi], rfl, hsome⟩
  · rintro ⟨slot, hslot, hgeneration, hsome⟩
    refine ⟨slot, id.index.toNat, ⟨hslot, hsome⟩, ?_⟩
    rw [hgeneration, UInt32.ofNat_toNat]

theorem ids_sorted (hslots : w.slots.length ≤ UInt32.size) :
    w.ids.Pairwise fun a b => a.index < b.index := by
  have hplaces : w.slots.zipIdx.Pairwise fun a b => a.2 < b.2 := by
    refine List.pairwise_map.1 ?_
    rw [List.zipIdx_map_snd]
    exact List.pairwise_lt_range'
  refine List.pairwise_map.2 (List.Pairwise.imp_of_mem ?_ (hplaces.filter _))
  intro a b ha hb hlt
  have hin : ∀ e ∈ w.slots.zipIdx.filter fun e => e.1.entry.isSome, e.2 < UInt32.size := by
    intro e he
    have hslot := List.mem_zipIdx_iff_getElem?.1 (List.mem_filter.1 he).1
    exact Nat.lt_of_lt_of_le (List.getElem?_eq_some_iff.1 hslot).1 hslots
  rw [UInt32.lt_iff_toNat_lt, UInt32.toNat_ofNat_of_lt' (hin a ha),
    UInt32.toNat_ofNat_of_lt' (hin b hb)]
  exact hlt

/-! ## Histories in two pieces -/

theorem handles_append (w : World) (first second : List Operation) :
    w.handles (first ++ second) = w.handles first ++ (w.performAll first).handles second := by
  simp only [handles, answers_append, List.filterMap_append]

theorem emptied_le (w : World) (i : UInt32) (operations : List Operation) :
    w.emptied i operations ≤ operations.length := by
  induction operations generalizing w with
  | nil => exact Nat.le_refl _
  | cons operation rest ih =>
      have hone : w.emptiedBy i operation ≤ 1 := by
        cases operation with
        | destroy id =>
            simp only [emptiedBy]
            split <;> omega
        | _ => exact Nat.zero_le _
      have hrest := ih (w.perform operation).1
      simp only [emptied, List.length_cons]
      omega

theorem mem_handles {operations : List Operation}
    (hgiven : .spawned (.ok id) ∈ w.answers operations) : id ∈ w.handles operations :=
  List.mem_filterMap.2 ⟨_, hgiven, rfl⟩

/-! ## Handles are sound -/

/--
While indices and generations of 32 bits suffice, the free list names the vacant slots, each
once.  No handle is given twice, and none finds an object that was not given.  A spawn leaves
every live entry as it is, and its handle, which found nothing before, finds what has become of
the object put in until an operation takes it out, and nothing from then on.  The live handles
are listed once each, in the order of their slots.  A spawn that fails, and a handle that finds
nothing to take out, leave the world as it is.
-/
theorem handles_sound (config : RuntimeConfig) (registry : Registry)
    (operations : List Operation) :
    let start := World.empty config registry
    let final := start.performAll operations
    final.slots.length ≤ UInt32.size → (∀ i, start.emptied i operations < UInt32.size) →
    (final.free.Nodup ∧ ∀ i, i ∈ final.free ↔ VacantAt final.slots i) ∧
    (start.handles operations).Nodup ∧
    (∀ id, final.contains id = true → id ∈ start.handles operations) ∧
    (∀ before object after w' id, operations = before ++ .spawn object :: after →
      (start.performAll before).spawn object = .ok (w', id) →
      (start.performAll before).contains id = false ∧
      (∀ other, (start.performAll before).contains other = true →
        w'.entry? other = entry? (start.performAll before) other) ∧
      w'.object? id = some object ∧
      (∃ entry, w'.entry? id = some entry ∧ final.entry? id = w'.fate id entry after) ∧
      (final.contains id = true ↔ ∀ o ∈ after, o.removes id = false)) ∧
    (final.ids.Pairwise fun a b => a.index < b.index) ∧
    (∀ id, id ∈ final.ids ↔ final.contains id = true) ∧
    (∀ object e, final.spawn object = .error e →
      final.perform (.spawn object) = (final, .spawned (.error e))) ∧
    ∀ id, final.contains id = false → final.perform (.destroy id) = (final, .destroyed none) := by
  intro start final hslots htimes
  have hstart : start.Reached := ⟨config, registry, .refl⟩
  have haccounted := (Accounted.empty config registry).performAll hstart operations
    (by simpa using htimes) hslots
  have hfinal : final.Reached := hstart.changes (performAll_changes start operations)
  have hnodup : (start.handles operations).Nodup := haccounted.nodup
  refine ⟨⟨hfinal.tidy.nodup, hfinal.tidy.vacant⟩, hnodup, haccounted.live, ?_,
    ids_sorted hslots, fun id => mem_ids hslots, ?_, ?_⟩
  · rintro before object after w' id rfl hspawn
    have hbefore : (start.performAll before).Reached :=
      hstart.changes (performAll_changes start before)
    have hperform : (start.performAll before).perform (.spawn object) =
        (w', .spawned (.ok id)) := by simp only [perform, hspawn]
    have hlast : final = w'.performAll after := by
      simp only [final, performAll_append, performAll, hperform]
    have hgiven : start.handles (before ++ .spawn object :: after) =
        start.handles before ++ id :: w'.handles after := by
      rw [handles_append]
      simp only [handles, answers, hperform, List.filterMap_cons, Answer.handle?]
    have hroom : w'.slots.length ≤ UInt32.size := by
      rw [hlast] at hslots
      exact Nat.le_trans (performAll_changes w' after).length_slots_le hslots
    have hfresh := hbefore.tidy.entry?_of_spawn hspawn hroom
    have hself := entry?_spawn_self hbefore.tidy hspawn
    have honce : .spawned (.ok id) ∉ w'.answers after := by
      intro hagain
      rw [hgiven, List.nodup_append] at hnodup
      exact (List.nodup_cons.1 hnodup.2.1).1 (mem_handles hagain)
    have hfate := entry?_performAll hself honce
    rw [← hlast] at hfate
    refine ⟨by simp [contains, hfresh], ?_, by simp [object?, hself], ⟨_, hself, hfate⟩, ?_⟩
    · intro other hother
      refine entry?_spawn_ne hspawn ?_
      rintro rfl
      simp [contains, hfresh] at hother
    · rw [contains, hfate, fate_isSome]
      simp
  · intro object e he
    simp only [perform, he]
  · intro id hdead
    have hnone : final.entry? id = none := by simpa [contains] using hdead
    simp only [perform, World.destroy, hnone, Option.map_none]

def pawnHistory : List Operation :=
  [.registerNative "Pawn" none, .spawn (.actor "Pawn"), .destroy ⟨0, 0⟩, .spawn (.actor "Pawn"),
    .destroy ⟨0, 0⟩]

theorem handles_sound_pawns :
    let start := empty .default .empty
    let final := start.performAll pawnHistory
    final.slots.length ≤ UInt32.size ∧ (∀ i, start.emptied i pawnHistory < UInt32.size) ∧
      start.handles pawnHistory = [⟨0, 0⟩, ⟨0, 1⟩] ∧ (start.handles pawnHistory).Nodup ∧
      final.ids = [⟨0, 1⟩] ∧
      final.perform (.destroy ⟨0, 0⟩) = (final, .destroyed none) := by
  intro start final
  have hlength : final.slots.length = 1 := by cbv
  have hslots : final.slots.length ≤ UInt32.size := by
    rw [hlength]
    decide
  have htimes : ∀ i, start.emptied i pawnHistory < UInt32.size := fun i =>
    Nat.lt_of_le_of_lt (emptied_le start i pawnHistory) (by decide)
  have hstale : final.contains ⟨0, 0⟩ = false := by cbv
  obtain ⟨-, hnodup, -, -, -, -, -, hdestroy⟩ :=
    handles_sound .default .empty pawnHistory hslots htimes
  exact ⟨hslots, htimes, by cbv, hnodup, by cbv, hdestroy _ hstale⟩

end World

end Nodeflow
