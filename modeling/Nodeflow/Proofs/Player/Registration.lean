import Mathlib.Algebra.Ring.Nat
import Mathlib.Data.List.Perm.Basic
import Nodeflow.Player.Asset
import Nodeflow.Proofs.Ancestry
import Nodeflow.Proofs.World.Operation

/-!
# Registering assets in any order

Registration succeeds just when some order of the assets puts parents before children, in
whatever order they are given.  That nothing less will do is seen from the table it leaves, in
which every class stands before its ancestors.  That nothing more is needed is seen from any of
the assets that wait: the way up from it leads to one that is ready.
-/

namespace Nodeflow

namespace Asset

variable {w : World} {t t' : ClassTable} {a : Asset} {assets other : List Asset}

def classInfo (w : World) (a : Asset) : ClassInfo :=
  .generated a.className a.parent (a.graph.build w.registry w.config)

theorem map_name_classInfo (w : World) (assets : List Asset) :
    (assets.map (classInfo w)).map ClassInfo.name = assets.map className := by
  rw [List.map_map]
  rfl

def reportsOf (w : World) (a : Asset) : List (String × Diagnostic) :=
  (a.classInfo w).diagnostics.map (a.className, ·)

/-- Following parents from an asset through the given ones ends at an asset that has none, or
one that is registered already. -/
inductive Grounded (t : ClassTable) (assets : List Asset) : Asset → Prop
  | top {a : Asset} (hparent : ∀ p ∈ a.parent, t.contains p = true) : Grounded t assets a
  | under {a b : Asset} (hparent : a.parent = some b.className) (hb : b ∈ assets)
      (hgrounded : Grounded t assets b) : Grounded t assets a

structure Registrable (t : ClassTable) (assets : List Asset) : Prop where
  distinct : (assets.map className).Nodup
  free : ∀ a ∈ assets, t.contains a.className = false
  grounded : ∀ a ∈ assets, Grounded t assets a

theorem Grounded.perm (h : Grounded t assets a) (hperm : other.Perm assets) :
    Grounded t other a := by
  induction h with
  | top hparent => exact .top hparent
  | under hparent hb _ ih => exact .under hparent (hperm.mem_iff.2 hb) ih

theorem Registrable.perm (h : Registrable t assets) (hperm : other.Perm assets) :
    Registrable t other where
  distinct := (hperm.map className).nodup_iff.2 h.distinct
  free a ha := h.free a (hperm.mem_iff.1 ha)
  grounded a ha := (h.grounded a (hperm.mem_iff.1 ha)).perm hperm

theorem isReady_iff : isReady w a = true ↔ ∀ p ∈ a.parent, w.classes.contains p = true := by
  simp [isReady, Option.all_eq_true]

theorem grounded_of_layered {added : List ClassInfo} (hlayered : Layered (added ++ t.classes))
    (hadded : added ⊆ assets.map (classInfo w)) (ha : classInfo w a ∈ added) :
    Grounded t assets a := by
  induction added generalizing a with
  | nil => contradiction
  | cons newest older ih =>
      obtain ⟨-, hparent, holder⟩ := hlayered
      have holdest : older ⊆ assets.map (classInfo w) := (List.cons_subset.1 hadded).2
      rcases List.mem_cons.1 ha with rfl | ha
      · cases hp : a.parent with
        | none => exact .top (by simp [hp])
        | some p =>
            obtain ⟨d, hd, hname⟩ := hparent p hp
            rcases List.mem_append.1 hd with hd | hd
            · obtain ⟨b, hb, rfl⟩ := List.mem_map.1 (holdest hd)
              exact .under (hp.trans (congrArg some hname.symm)) hb (ih holder holdest hd)
            · refine .top fun q hq => ClassTable.contains_iff.2 ⟨d, hd, ?_⟩
              exact hname.trans (Option.some.inj (hp.symm.trans hq))
      · exact ih holder holdest ha

/-! ## What a registration leaves -/

/-- A registration that took every asset: the world has their classes in front of those from
before, in some order, and the reports are those of their builds. -/
structure Takes (w : World) (assets : List Asset) (r : Registration) : Prop where
  frame : r.world = { w with classes := r.world.classes }
  entries : ∃ added : List ClassInfo,
    r.world.classes.classes = added ++ w.classes.classes ∧ added.Perm (assets.map (classInfo w))
  reports : r.reports.Perm (assets.flatMap (reportsOf w))

namespace Takes

variable {r r' : Registration}

theorem nil (w : World) : Takes w [] ⟨w, [], none⟩ :=
  ⟨rfl, ⟨[], rfl, .refl _⟩, .refl _⟩

theorem perm (h : Takes w assets r) (hperm : other.Perm assets) : Takes w other r where
  frame := h.frame
  entries := by
    obtain ⟨added, hclasses, hadded⟩ := h.entries
    exact ⟨added, hclasses, hadded.trans (hperm.map _).symm⟩
  reports := h.reports.trans (hperm.flatMap_right _).symm

theorem append (h : Takes w assets r) (h' : Takes r.world other r') :
    Takes w (assets ++ other) { r' with reports := r.reports ++ r'.reports } := by
  obtain ⟨added, hclasses, hadded⟩ := h.entries
  obtain ⟨added', hclasses', hadded'⟩ := h'.entries
  have hinfo : classInfo r.world = classInfo w := by
    rw [h.frame]
    rfl
  have hreports : reportsOf r.world = reportsOf w := by
    funext a
    rw [reportsOf, hinfo, reportsOf]
  rw [hinfo] at hadded'
  refine ⟨?_, ⟨added' ++ added, ?_, ?_⟩, ?_⟩
  · rw [h'.frame, h.frame]
  · rw [hclasses', hclasses, List.append_assoc]
  · rw [List.map_append]
    exact List.perm_append_comm.trans (hadded.append hadded')
  · rw [List.flatMap_append]
    exact h.reports.append (hreports ▸ h'.reports)

theorem length_reports (h : Takes w assets r) :
    r.reports.length = (assets.map fun a => (a.classInfo w).diagnostics.length).sum := by
  rw [h.reports.length_eq, List.length_flatMap]
  simp only [reportsOf, List.length_map]

theorem registrable (h : Takes w assets r) : Registrable w.classes assets := by
  obtain ⟨added, hclasses, hadded⟩ := h.entries
  have hlayered : Layered (added ++ w.classes.classes) := hclasses ▸ r.world.classes.layered
  have hnames := List.pairwise_append.1 (ClassTable.pairwise_names hlayered)
  have hmem : ∀ a ∈ assets, classInfo w a ∈ added := fun a ha =>
    hadded.mem_iff.2 (List.mem_map_of_mem ha)
  refine ⟨?_, ?_, ?_⟩
  · have hmap : (added.map ClassInfo.name).Perm (assets.map className) :=
      map_name_classInfo w assets ▸ hadded.map ClassInfo.name
    exact hmap.nodup_iff.1 (List.pairwise_map.2 hnames.1)
  · intro a ha
    exact ClassTable.contains_eq_false_iff.2 fun c hc => (hnames.2.2 _ (hmem a ha) c hc).symm
  · intro a ha
    exact grounded_of_layered hlayered hadded.subset (hmem a ha)

end Takes

/-! ## One asset, one round -/

variable {r : Registration} {round : List Asset}

theorem registerGenerated_takes {diagnostics : List Diagnostic} {w' : World}
    (h : w.registerGenerated a.className a.parent a.graph = .ok (w', diagnostics)) :
    Takes w [a] ⟨w', diagnostics.map (a.className, ·), none⟩ := by
  obtain ⟨classes, hinsert, rfl, rfl⟩ := World.registerGenerated_eq_ok.1 h
  refine ⟨rfl, ⟨[classInfo w a], ?_, .refl _⟩, ?_⟩
  · exact (ClassTable.insert_eq_ok hinsert).1
  · simp [reportsOf, classInfo, ClassInfo.generated]

theorem registerEach_takes (w : World) (round : List Asset)
    (h : (registerEach w round).error = none) : Takes w round (registerEach w round) := by
  induction round generalizing w with
  | nil => exact .nil w
  | cons a rest ih =>
      unfold registerEach at h ⊢
      split at h
      · contradiction
      · rename_i w' diagnostics hone
        have hfirst := registerGenerated_takes hone
        exact hfirst.append (ih w' h)

theorem Takes.contains_iff (h : Takes w round r) {name : String} :
    r.world.classes.contains name = true ↔
      w.classes.contains name = true ∨ name ∈ round.map className := by
  obtain ⟨added, hclasses, hadded⟩ := h.entries
  rw [← map_name_classInfo w, ← (hadded.map ClassInfo.name).mem_iff, List.mem_map,
    ClassTable.contains_iff, ClassTable.contains_iff, hclasses]
  simp only [List.mem_append, or_and_right, exists_or]
  exact or_comm

theorem registerEach_error (w : World) (round : List Asset)
    (hdistinct : (round.map className).Nodup)
    (hfree : ∀ a ∈ round, w.classes.contains a.className = false)
    (hready : ∀ a ∈ round, isReady w a = true) : (registerEach w round).error = none := by
  induction round generalizing w with
  | nil => rfl
  | cons a rest ih =>
      obtain ⟨classes, hinsert⟩ := ClassTable.exists_insert_iff.2
        (show w.classes.Accepts (classInfo w a) from
          ⟨hfree a List.mem_cons_self, isReady_iff.1 (hready a List.mem_cons_self)⟩)
      have hone := World.registerGenerated_eq_ok.2 ⟨classes, hinsert, rfl, rfl⟩
      have hfirst := registerGenerated_takes hone
      obtain ⟨hnotin, hdistinct⟩ := List.nodup_cons.1 hdistinct
      simp only [registerEach, hone]
      refine ih { w with classes } hdistinct (fun b hb => ?_) (fun b hb => ?_)
      · have hother : b.className ≠ a.className := fun h =>
          hnotin (h ▸ List.mem_map_of_mem hb)
        have hold := hfree b (List.mem_cons_of_mem a hb)
        rw [← Bool.not_eq_true, hfirst.contains_iff]
        simp [hold, hother]
      · have hold := isReady_iff.1 (hready b (List.mem_cons_of_mem a hb))
        exact isReady_iff.2 fun p hp => hfirst.contains_iff.2 (.inl (hold p hp))

/-! ## Rounds -/

theorem ready_append_waiting (w : World) (pending : List Asset) :
    (pending.filter (isReady w) ++ pending.filter fun a => !isReady w a).Perm pending :=
  List.filter_append_perm _ pending

theorem registerAll_takes (w : World) (assets : List Asset)
    (h : (registerAll w assets).error = none) : Takes w assets (registerAll w assets) := by
  fun_induction registerAll w assets with
  | case1 w => exact .nil w
  | case2 => contradiction
  | case3 => contradiction
  | case4 w first rest ready waiting _ round hround later ih =>
      have hfirst : Takes w ready round := registerEach_takes w ready hround
      exact (hfirst.append (ih h)).perm (ready_append_waiting w _).symm

theorem Grounded.exists_ready (h : Grounded w.classes assets a) (ha : a ∈ assets) :
    ∃ b ∈ assets, isReady w b = true := by
  induction h with
  | top hparent => exact ⟨_, ha, isReady_iff.2 hparent⟩
  | under _ hb _ ih => exact ih hb

theorem not_grounded_of_stuck (hstuck : (assets.filter (isReady w)).isEmpty = true)
    (ha : a ∈ assets) : ¬Grounded w.classes assets a := by
  intro hgrounded
  obtain ⟨b, hb, hready⟩ := hgrounded.exists_ready ha
  have hmem : b ∈ assets.filter (isReady w) := List.mem_filter.2 ⟨hb, hready⟩
  rw [List.isEmpty_iff.1 hstuck] at hmem
  contradiction

theorem Grounded.waiting (h : Grounded w.classes assets a)
    (hround : Takes w (assets.filter (isReady w)) r) :
    Grounded r.world.classes (assets.filter fun a => !isReady w a) a := by
  induction h with
  | top hparent => exact .top fun p hp => hround.contains_iff.2 (.inl (hparent p hp))
  | @under a b hparent hb _ ih =>
      by_cases hready : isReady w b = true
      · refine .top fun p hp => hround.contains_iff.2 (.inr ?_)
        obtain rfl : b.className = p := Option.some.inj (hparent.symm.trans hp)
        exact List.mem_map_of_mem (List.mem_filter.2 ⟨hb, hready⟩)
      · exact .under hparent (List.mem_filter.2 ⟨hb, by simpa using hready⟩) ih

theorem waiting_names (hdistinct : (assets.map className).Nodup)
    (hfree : ∀ a ∈ assets, w.classes.contains a.className = false)
    (hround : Takes w (assets.filter (isReady w)) r) :
    ((assets.filter fun a => !isReady w a).map className).Nodup ∧
      ∀ a ∈ assets.filter fun a => !isReady w a, r.world.classes.contains a.className = false := by
  have hsplit := ready_append_waiting w assets
  have hnames := (hsplit.map className).nodup_iff.2 hdistinct
  rw [List.map_append, List.nodup_append] at hnames
  obtain ⟨-, hwaiting, hdisjoint⟩ := hnames
  refine ⟨hwaiting, fun a ha => ?_⟩
  have hfree := hfree a (List.mem_filter.1 ha).1
  rw [← Bool.not_eq_true, hround.contains_iff]
  rintro (hold | hnew)
  · simp [hfree] at hold
  · exact hdisjoint _ hnew _ (List.mem_map_of_mem ha) rfl

theorem Registrable.waiting (h : Registrable w.classes assets)
    (hround : Takes w (assets.filter (isReady w)) r) :
    Registrable r.world.classes (assets.filter fun a => !isReady w a) := by
  obtain ⟨hdistinct, hfree⟩ := waiting_names h.distinct h.free hround
  exact ⟨hdistinct, hfree, fun a ha => (h.grounded a (List.mem_filter.1 ha).1).waiting hround⟩

theorem round_error (hdistinct : (assets.map className).Nodup)
    (hfree : ∀ a ∈ assets, w.classes.contains a.className = false) :
    (registerEach w (assets.filter (isReady w))).error = none := by
  apply registerEach_error
  · exact (List.filter_sublist.map className).nodup hdistinct
  · exact fun a ha => hfree a (List.mem_filter.1 ha).1
  · exact fun a ha => (List.mem_filter.1 ha).2

theorem registerAll_error (w : World) (assets : List Asset) (h : Registrable w.classes assets) :
    (registerAll w assets).error = none := by
  fun_induction registerAll w assets with
  | case1 => rfl
  | case2 w first rest ready hstuck =>
      have hgrounded := h.grounded first List.mem_cons_self
      exact absurd hgrounded (not_grounded_of_stuck hstuck List.mem_cons_self)
  | case3 w first rest ready _ round e he =>
      have hround : round.error = none := round_error h.distinct h.free
      rw [he] at hround
      contradiction
  | case4 w first rest ready waiting _ round hround later ih =>
      exact ih (h.waiting (registerEach_takes w ready hround))

theorem registerAll_error_iff (w : World) (assets : List Asset) :
    (registerAll w assets).error = none ↔ Registrable w.classes assets := by
  constructor
  · intro h
    exact (registerAll_takes w assets h).registrable
  · exact registerAll_error w assets

theorem Takes.congr {r' : Registration} (h : Takes w assets r) (h' : Takes w assets r') :
    r'.world.classes.classes.Perm r.world.classes.classes := by
  obtain ⟨added, hclasses, hadded⟩ := h.entries
  obtain ⟨added', hclasses', hadded'⟩ := h'.entries
  rw [hclasses, hclasses']
  exact (hadded'.trans hadded.symm).append_right _

/--
Registering assets succeeds just if they have different names, none of them taken, and following
parents leads up from each to an asset without a parent or with one that is registered.  The
world then has one more class for each of them, with its own parent and its graph as built in
that world, and the number of reports is that of all builds.  In another order the assets give
the same table and the same number, or fail as well.
-/
theorem registerAll_any_order (w : World) (assets : List Asset) :
    let r := registerAll w assets
    (r.error = none ↔ Registrable w.classes assets) ∧
    (r.error = none →
      r.world = { w with classes := r.world.classes } ∧
      (∃ added : List ClassInfo, r.world.classes.classes = added ++ w.classes.classes ∧
        added.Perm (assets.map (classInfo w))) ∧
      r.reports.length = (assets.map fun a => (a.classInfo w).diagnostics.length).sum) ∧
    ∀ other, other.Perm assets →
      let r' := registerAll w other
      (r'.error = none ↔ r.error = none) ∧
      (r.error = none →
        r'.world = { r.world with classes := r'.world.classes } ∧
        r'.world.classes.classes.Perm r.world.classes.classes ∧
        (∀ name, r'.world.classes.get? name = r.world.classes.get? name) ∧
        (∀ name, r'.world.classes.chain name = r.world.classes.chain name) ∧
        r'.reports.length = r.reports.length) := by
  intro r
  refine ⟨registerAll_error_iff w assets, ?_, ?_⟩
  · intro h
    have htakes := registerAll_takes w assets h
    exact ⟨htakes.frame, htakes.entries, htakes.length_reports⟩
  · intro other hperm r'
    have hiff : r'.error = none ↔ r.error = none := by
      rw [registerAll_error_iff, registerAll_error_iff]
      exact ⟨fun h => h.perm hperm.symm, fun h => h.perm hperm⟩
    refine ⟨hiff, fun h => ?_⟩
    have htakes := registerAll_takes w assets h
    have htakes' : Takes w assets r' := (registerAll_takes w other (hiff.2 h)).perm hperm.symm
    have hclasses := htakes.congr htakes'
    have hget := ClassTable.get?_perm hclasses
    refine ⟨?_, hclasses, hget, fun name => ClassTable.chain_congr hget, ?_⟩
    · rw [htakes'.frame, htakes.frame]
    · rw [htakes'.length_reports, htakes.length_reports]

example :
    let asset (name : String) (parent : Option String) : Asset := ⟨1, name, parent, default⟩
    let w : World := .empty .default .empty
    let family := [asset "Enemy" (some "Pawn"), asset "Pawn" (some "Actor"), asset "Actor" none]
    let pair := [asset "Hen" (some "Egg"), asset "Egg" (some "Hen")]
    (registerAll w family).error = none ∧ (registerAll w pair).error.isSome = true := by
  cbv

end Asset

end Nodeflow
