import Mathlib.Data.List.Dedup
import Mathlib.Data.List.Destutter
import Nodeflow.Registry

/-!
# The palette is a partition

Capabilities are offered to a registry one after the other, and the next is offered whether
or not the last was refused.  What the palette lists group by group is then what was taken
in, every capability in one place.
-/

namespace Nodeflow

/-! ## Groups of a list -/

section Groups

variable {α κ : Type} [DecidableEq κ]

theorem eraseReps_eq_destutter (l : List κ) : l.eraseReps = l.destutter (· ≠ ·) := by
  have hloop : ∀ (l : List κ) (a : κ) (acc : List κ),
      List.eraseRepsBy.loop (· == ·) a l acc = acc.reverse ++ l.destutter' (· ≠ ·) a := by
    intro l
    induction l with
    | nil => simp [List.eraseRepsBy.loop]
    | cons b l ih =>
        intro a acc
        by_cases hab : a = b
        · simp [List.eraseRepsBy.loop, hab, ih]
        · have hbeq : (a == b) = false := by simpa using hab
          simp [List.eraseRepsBy.loop, hbeq, hab, ih]
  cases l with
  | nil => rfl
  | cons a l => exact hloop l a []

theorem flatMap_filter_perm (key : α → κ) (l : List α) {keys : List κ} (hkeys : keys.Nodup) :
    (keys.flatMap fun k => l.filter fun a => key a == k).Perm
      (l.filter fun a => keys.contains (key a)) := by
  induction keys with
  | nil => simp
  | cons k keys ih =>
      obtain ⟨hk, hkeys⟩ := List.nodup_cons.1 hkeys
      have hsplit := List.filter_append_perm (fun a => key a == k)
        (l.filter fun a => (k :: keys).contains (key a))
      have hfirst : (l.filter fun a => (k :: keys).contains (key a)).filter (key · == k) =
          l.filter (key · == k) := by
        rw [List.filter_filter]
        congr 1
        funext a
        by_cases ha : key a = k <;> simp [ha]
      have hrest : (l.filter fun a => (k :: keys).contains (key a)).filter (!key · == k) =
          l.filter fun a => keys.contains (key a) := by
        rw [List.filter_filter]
        congr 1
        funext a
        by_cases ha : key a = k <;> simp [ha, hk]
      rw [hfirst, hrest] at hsplit
      rw [List.flatMap_cons]
      exact (ih hkeys).append_left _ |>.trans hsplit

end Groups

namespace Registry

variable (r : Registry) {c : Capability}

/-! ## Numbers and names -/

theorem findIdx?_name {i : Nat} (hc : r.entries[i]? = some c) :
    (r.entries.findIdx? fun d => d.name == c.name) = some i := by
  obtain ⟨hi, rfl⟩ := List.getElem?_eq_some_iff.1 hc
  rw [List.findIdx?_eq_some_iff_getElem]
  refine ⟨hi, BEq.rfl, fun j hji => ?_⟩
  have hnames := List.pairwise_iff_getElem.1 r.distinct j i (by simp; omega) (by simpa) hji
  simpa using hnames

theorem lookup?_name {i : Nat} (hc : r.entries[i]? = some c) :
    r.lookup? c.name = some (UInt32.ofNat i) := by
  rw [lookup?, r.numbered, r.findIdx?_name hc, Option.map_some]

theorem contains_iff {r : Registry} {name : String} :
    r.contains name = true ↔ name ∈ r.entries.map Capability.name := by
  rw [contains, NameMap.contains, r.numbered, Option.isSome_map, List.findIdx?_isSome,
    List.any_eq_true, List.mem_map]
  simp

/-! ## Offers -/

/-- The registry once capabilities are offered to it one after the other. -/
def offerAll (r : Registry) (cs : List Capability) : Registry :=
  cs.foldl (fun r c => (r.registerAll [c]).1) r

/-- Those of the offered capabilities whose registration answers with no error. -/
def taken (r : Registry) : List Capability → List Capability
  | [] => []
  | c :: rest =>
    let after := r.registerAll [c]
    if after.2.isNone then c :: after.1.taken rest else after.1.taken rest

theorem registerAll_of_contains (h : r.contains c.name = true) :
    r.registerAll [c] = (r, some (.duplicate c.name)) := by
  simp [registerAll, register, h]

theorem registerAll_of_not_contains (h : r.contains c.name = false) :
    (r.registerAll [c]).2 = none ∧ (r.registerAll [c]).1.entries = r.entries ++ [c] := by
  simp [registerAll, register, h]

theorem entries_offerAll (cs : List Capability) :
    (r.offerAll cs).entries = r.entries ++ r.taken cs := by
  induction cs generalizing r with
  | nil => exact (List.append_nil _).symm
  | cons c cs ih =>
      have hnext : r.offerAll (c :: cs) = (r.registerAll [c]).1.offerAll cs := rfl
      rw [hnext, ih, taken]
      cases h : r.contains c.name with
      | true => simp [r.registerAll_of_contains h]
      | false =>
          obtain ⟨hanswer, hentries⟩ := r.registerAll_of_not_contains h
          simp [hanswer, hentries]

theorem taken_of_nodup {cs : List Capability} (hnew : ∀ c ∈ cs, r.contains c.name = false)
    (hnodup : (cs.map Capability.name).Nodup) : r.taken cs = cs := by
  induction cs generalizing r with
  | nil => rfl
  | cons c cs ih =>
      obtain ⟨hc, hnodup⟩ := List.nodup_cons.1 hnodup
      obtain ⟨hanswer, hentries⟩ :=
        r.registerAll_of_not_contains (hnew c List.mem_cons_self)
      simp only [taken, hanswer, Option.isNone_none, if_true, List.cons.injEq, true_and]
      refine ih _ (fun d hd => ?_) hnodup
      have hold := mt contains_iff.2 (Bool.eq_false_iff.1 (hnew d (List.mem_cons_of_mem c hd)))
      rw [Bool.eq_false_iff, ne_eq, contains_iff, hentries, List.map_append, List.mem_append]
      rintro (hd' | hd')
      · exact hold hd'
      · exact hc (List.mem_singleton.1 hd' ▸ List.mem_map_of_mem hd)

theorem contains_offerAll_iff (cs : List Capability) {name : String} :
    (r.offerAll cs).contains name = true ↔
      r.contains name = true ∨ name ∈ cs.map Capability.name := by
  induction cs generalizing r with
  | nil => simp [offerAll]
  | cons c cs ih =>
      have hnext : r.offerAll (c :: cs) = (r.registerAll [c]).1.offerAll cs := rfl
      rw [hnext, ih, List.map_cons, List.mem_cons, ← or_assoc]
      refine or_congr_left ?_
      cases h : r.contains c.name with
      | true =>
          rw [r.registerAll_of_contains h]
          refine ⟨.inl, ?_⟩
          rintro (hname | rfl)
          · exact hname
          · exact h
      | false =>
          rw [contains_iff, contains_iff, (r.registerAll_of_not_contains h).2]
          simp

/-! ## Groups -/

theorem pairwise_mergeSort_rank (l : List Category) :
    (l.mergeSort fun a b => a.rank ≤ b.rank).Pairwise fun a b => a.rank ≤ b.rank := by
  have hsorted : (l.mergeSort fun a b => a.rank ≤ b.rank).Pairwise
      fun a b => decide (a.rank ≤ b.rank) = true := by
    apply List.pairwise_mergeSort
    · intro a b c hab hbc
      simp only [decide_eq_true_eq] at hab hbc ⊢
      exact Nat.le_trans hab hbc
    · intro a b
      simp only [Bool.or_eq_true, decide_eq_true_eq]
      exact Nat.le_total a.rank b.rank
  exact hsorted.imp of_decide_eq_true

theorem categories_eq_dedup :
    r.categories = ((r.descriptors.map Descriptor.category).mergeSort
      fun a b => a.rank ≤ b.rank).dedup := by
  have hantisymm : Std.Antisymm fun a b : Category => a.rank ≤ b.rank :=
    ⟨fun a b hab hba => Category.rank_inj (Nat.le_antisymm hab hba)⟩
  rw [categories, eraseReps_eq_destutter]
  exact (pairwise_mergeSort_rank _).destutter_eq_dedup

theorem pairwise_categories : r.categories.Pairwise fun a b => a.rank < b.rank := by
  rw [categories_eq_dedup]
  have hle := (pairwise_mergeSort_rank (r.descriptors.map Descriptor.category)).sublist
    (List.dedup_sublist _)
  apply (hle.and (List.nodup_dedup _)).imp
  rintro a b ⟨hab, hne⟩
  exact Nat.lt_of_le_of_ne hab fun heq => hne (Category.rank_inj heq)

theorem mem_categories_iff {category : Category} :
    category ∈ r.categories ↔ ∃ d ∈ r.descriptors, d.category = category := by
  rw [categories_eq_dedup, List.mem_dedup, List.mem_mergeSort, List.mem_map]

theorem flatMap_inCategory_perm : (r.categories.flatMap r.inCategory).Perm r.descriptors := by
  have hnodup : r.categories.Nodup := by
    rw [categories_eq_dedup]
    exact List.nodup_dedup _
  have hall : (r.descriptors.filter fun d => r.categories.contains d.category) =
      r.descriptors := by
    rw [List.filter_eq_self]
    intro d hd
    rw [List.contains_iff_mem, mem_categories_iff]
    exact ⟨d, hd, rfl⟩
  have hperm := flatMap_filter_perm Descriptor.category r.descriptors hnodup
  rwa [hall] at hperm

/--
After any sequence of offers the palette is a partition of what was taken in.  The groups
stand in their order, none is empty, and each lists what was taken in of its own, in the
order of the registrations.  Of what was taken in, the first `2 ^ 32` are found by their names.
A capability is refused just if its name was offered before, and then nothing changes.
-/
theorem palette_partitions (cs : List Capability) :
    let r := empty.offerAll cs
    let taken := empty.taken cs
    let palette := r.categories.flatMap r.inCategory
    (palette.Perm (taken.map Capability.descriptor) ∧ (palette.map Descriptor.id).Nodup) ∧
      (r.categories.Pairwise fun a b => a.rank < b.rank) ∧
      (∀ category ∈ r.categories, r.inCategory category ≠ []) ∧
      (∀ category, r.inCategory category =
        (taken.map Capability.descriptor).filter fun d => d.category == category) ∧
      (∀ i c, taken[i]? = some c → i < UInt32.size →
        ∃ id, r.lookup? c.name = some id ∧ r.get? id = some c) ∧
      ∀ c, ((r.registerAll [c]).2 ≠ none ↔ c.name ∈ cs.map Capability.name) ∧
        ((r.registerAll [c]).2 ≠ none → r.registerAll [c] = (r, some (.duplicate c.name))) := by
  intro r taken palette
  have hentries : r.entries = taken := entries_offerAll empty cs
  have hdescriptors : r.descriptors = taken.map Capability.descriptor :=
    congrArg (List.map Capability.descriptor) hentries
  have hperm : palette.Perm r.descriptors := r.flatMap_inCategory_perm
  have hids : r.descriptors.map Descriptor.id = r.entries.map Capability.name := by
    simp [descriptors, Capability.name]
  refine ⟨⟨hdescriptors ▸ hperm, ?_⟩, r.pairwise_categories, ?_, ?_, ?_, ?_⟩
  · rw [(hperm.map Descriptor.id).nodup_iff, hids]
    exact r.distinct
  · intro category hcategory
    obtain ⟨d, hd, hgroup⟩ := r.mem_categories_iff.1 hcategory
    exact List.ne_nil_of_mem (List.mem_filter.2 ⟨hd, by simpa using hgroup⟩)
  · intro category
    rw [inCategory, hdescriptors]
  · intro i c hc hi
    rw [← hentries] at hc
    refine ⟨_, r.lookup?_name hc, ?_⟩
    rwa [get?, UInt32.toNat_ofNat_of_lt' hi]
  · intro c
    have hcontains : r.contains c.name = true ↔ c.name ∈ cs.map Capability.name := by
      rw [contains_offerAll_iff]
      exact or_iff_right nofun
    rw [← hcontains]
    cases h : r.contains c.name with
    | true => simp [r.registerAll_of_contains h]
    | false => simp [(r.registerAll_of_not_contains h).1]

/-! ## More capabilities than numbers -/

def idle (length : Nat) : Capability where
  descriptor :=
    { id := String.ofList (List.replicate length 'x'), category := .utility, description := ""
      params := [], slots := [], latent := false, method := false, produces := [] }
  invoke := pure (.done .unit)

def crowd (count : Nat) : List Capability :=
  (List.range count).map idle

theorem idle_name_injective : Function.Injective fun length => (idle length).name := by
  intro m n h
  have hlists := String.ofList_injective h
  simpa using congrArg List.length hlists

theorem taken_crowd (count : Nat) : empty.taken (crowd count) = crowd count := by
  refine empty.taken_of_nodup (fun _ _ => rfl) ?_
  rw [crowd, List.map_map]
  exact List.nodup_range.map idle_name_injective

theorem get?_lookup?_crowd {i count : Nat} (hi : i < count) :
    let r := empty.offerAll (crowd count)
    idle i ∈ empty.taken (crowd count) ∧
      (r.lookup? (idle i).name).bind r.get? = some (idle (i % UInt32.size)) := by
  intro r
  have hentries : r.entries = crowd count := by
    rw [entries_offerAll, taken_crowd]
    rfl
  have hplace : ∀ j < count, r.entries[j]? = some (idle j) := by
    intro j hj
    rw [hentries, crowd, List.getElem?_map, List.getElem?_range hj, Option.map_some]
  rw [taken_crowd, r.lookup?_name (hplace i hi), Option.bind_some, get?, UInt32.toNat_ofNat']
  exact ⟨List.mem_map_of_mem (List.mem_range.2 hi),
    hplace _ (Nat.lt_of_le_of_lt (Nat.mod_le ..) hi)⟩

/-- Past `2 ^ 32` capabilities, a name leads to another capability than its own.  And where a
group is registered, what stands before the one that is refused stays. -/
theorem palette_overflows :
    (¬ ∀ (cs : List Capability), ∀ c ∈ empty.taken cs,
      ∃ id, (empty.offerAll cs).lookup? c.name = some id ∧
        (empty.offerAll cs).get? id = some c) ∧
    ¬ ∀ (r : Registry) cs, (r.registerAll cs).2 ≠ none → (r.registerAll cs).1 = r := by
  constructor
  · intro h
    obtain ⟨htaken, hfound⟩ := get?_lookup?_crowd (Nat.lt_succ_self UInt32.size)
    obtain ⟨id, hid, hc⟩ := h _ _ htaken
    rw [hid, Option.bind_some, hc, Nat.mod_self] at hfound
    have hname := idle_name_injective (congrArg Capability.name (Option.some.inj hfound))
    exact absurd hname (by decide)
  · intro h
    have hrefused : (empty.registerAll [idle 0, idle 0]).2 ≠ none := by decide
    have hsize := congrArg size (h empty [idle 0, idle 0] hrefused)
    exact absurd hsize (by decide)

end Registry

end Nodeflow
