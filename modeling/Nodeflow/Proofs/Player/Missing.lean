import Mathlib
import Nodeflow.Proofs.Player.Registration

/-!
# Assets whose parent is missing

A registration that gets stuck leaves behind what is not grounded, and tells of the first of
these in the order given.  Without a cycle each of them lies below an asset whose parent is
nowhere to be found, but the one that is told of need not be such an asset itself: it may be
waiting for another that waits.
-/

namespace Nodeflow

namespace Asset

variable {w : World} {t : ClassTable} {a b : Asset} {assets : List Asset} {r : Registration}

/-! ## What waits for what -/

def Under (assets : List Asset) (a b : Asset) : Prop :=
  b ∈ assets ∧ a.parent = some b.className

def Acyclic (assets : List Asset) : Prop :=
  ∀ a ∈ assets, ¬Relation.TransGen (Under assets) a a

/-- The parent that an asset names is neither registered nor given. -/
structure Lacks (t : ClassTable) (assets : List Asset) (a : Asset) (parent : String) : Prop where
  named : a.parent = some parent
  unregistered : t.contains parent = false
  notGiven : parent ∉ assets.map className

theorem grounded_of_ready (h : isReady w a = true) : Grounded w.classes assets a :=
  .top (isReady_iff.1 h)

theorem parent_of_not_grounded (h : ¬Grounded t assets a) :
    ∃ p, a.parent = some p ∧ t.contains p = false := by
  cases hparent : a.parent with
  | none => exact absurd (.top (by simp [hparent])) h
  | some p =>
      refine ⟨p, rfl, Bool.eq_false_iff.2 fun hp => h (.top fun q hq => ?_)⟩
      obtain rfl : p = q := Option.some.inj (hparent.symm.trans hq)
      exact hp

theorem lacks_iff_of_not_grounded (h : ¬Grounded t assets a) {p : String}
    (hparent : a.parent = some p) : Lacks t assets a p ↔ p ∉ assets.map className := by
  obtain ⟨p', hparent', hunregistered⟩ := parent_of_not_grounded h
  obtain rfl : p' = p := Option.some.inj (hparent'.symm.trans hparent)
  exact ⟨Lacks.notGiven, fun hgiven => ⟨hparent, hunregistered, hgiven⟩⟩

theorem Acyclic.wellFounded (h : Acyclic assets) :
    WellFounded fun b a : {a // a ∈ assets} => Under assets a.1 b.1 := by
  let above : {a // a ∈ assets} → {a // a ∈ assets} → Prop :=
    fun b a => Relation.TransGen (Under assets) a.1 b.1
  have : IsTrans _ above := ⟨fun _ _ _ hcb hba => hba.trans hcb⟩
  have : Std.Irrefl above := ⟨fun a => h a.1 a.2⟩
  have : Finite {a // a ∈ assets} :=
    (Set.range_list_get assets ▸ Set.finite_range assets.get).to_subtype
  exact Subrelation.wf (fun hunder => Relation.TransGen.single hunder)
    (Finite.wellFounded_of_trans_of_irrefl above)

theorem Acyclic.exists_lacks (h : Acyclic assets) (ha : a ∈ assets)
    (hstuck : ¬Grounded t assets a) :
    ∃ b p, Relation.ReflTransGen (Under assets) a b ∧ Lacks t assets b p := by
  obtain ⟨a, rfl⟩ : ∃ x : {a // a ∈ assets}, x.1 = a := ⟨⟨a, ha⟩, rfl⟩
  induction a using h.wellFounded.induction with
  | _ a ih =>
      obtain ⟨p, hparent, hunregistered⟩ := parent_of_not_grounded hstuck
      by_cases hgiven : p ∈ assets.map className
      · obtain ⟨b, hb, rfl⟩ := List.mem_map.1 hgiven
        have hunder : Under assets a.1 b := ⟨hb, hparent⟩
        obtain ⟨c, q, hup, hlacks⟩ := ih ⟨b, hb⟩ hunder hb
          fun hgrounded => hstuck (.under hparent hb hgrounded)
        exact ⟨c, q, .head hunder hup, hlacks⟩
      · exact ⟨a.1, p, .refl, hparent, hunregistered, hgiven⟩

/-! ## What a registration gets stuck on -/

/-- What was grounded stays so for those that wait, and nothing else becomes grounded. -/
theorem grounded_waiting_iff (hround : Takes w (assets.filter (isReady w)) r) :
    Grounded r.world.classes (assets.filter fun a => !isReady w a) a ↔
      Grounded w.classes assets a := by
  refine ⟨fun h => ?_, fun h => h.waiting hround⟩
  induction h with
  | @top a hparent =>
      by_cases hready : isReady w a = true
      · exact grounded_of_ready hready
      · obtain ⟨p, hp, hold⟩ : ∃ p ∈ a.parent, ¬w.classes.contains p = true := by
          simpa [isReady_iff] using hready
        rcases hround.contains_iff.1 (hparent p hp) with hp' | hp'
        · exact absurd hp' hold
        · obtain ⟨b, hb, rfl⟩ := List.mem_map.1 hp'
          obtain ⟨hb, hready⟩ := List.mem_filter.1 hb
          exact .under hp hb (grounded_of_ready hready)
  | under hparent hb _ ih => exact .under hparent (List.mem_filter.1 hb).1 ih

def stuckError (a : Asset) : AssetError :=
  .register a.className (.unknownParent a.className (a.parent.getD ""))

open Classical in
theorem registerAll_error_eq (w : World) (assets : List Asset)
    (hdistinct : (assets.map className).Nodup)
    (hfree : ∀ a ∈ assets, w.classes.contains a.className = false) :
    (registerAll w assets).error =
      (assets.find? fun a => ¬Grounded w.classes assets a).map stuckError := by
  fun_induction registerAll w assets with
  | case1 => rfl
  | case2 w first rest ready hstuck =>
      have hfirst := not_grounded_of_stuck hstuck List.mem_cons_self
      rw [List.find?_cons_of_pos (by simpa using hfirst)]
      rfl
  | case3 w first rest ready _ round e he =>
      have hround : round.error = none := round_error hdistinct hfree
      rw [he] at hround
      contradiction
  | case4 w first rest ready waiting _ round hround later ih =>
      have htakes : Takes w ready round := registerEach_takes w ready hround
      obtain ⟨hdistinct, hfree⟩ := waiting_names hdistinct hfree htakes
      have hfirst : (waiting.find? fun a => ¬Grounded round.world.classes waiting a) =
          (first :: rest).find? fun a => ¬Grounded w.classes (first :: rest) a := by
        rw [List.find?_filter]
        congr 1
        funext a
        rw [grounded_waiting_iff htakes]
        by_cases hready : isReady w a = true
        · simp [hready, grounded_of_ready hready]
        · simp [hready]
      exact (ih hdistinct hfree).trans (congrArg _ hfirst)

theorem registerAll_contains_iff (w : World) (assets : List Asset)
    (hdistinct : (assets.map className).Nodup)
    (hfree : ∀ a ∈ assets, w.classes.contains a.className = false) (name : String) :
    (registerAll w assets).world.classes.contains name = true ↔
      w.classes.contains name = true ∨
        ∃ a ∈ assets, Grounded w.classes assets a ∧ a.className = name := by
  fun_induction registerAll w assets with
  | case1 => simp
  | case2 w first rest ready hstuck =>
      refine ⟨.inl, ?_⟩
      rintro (h | ⟨a, ha, hgrounded, -⟩)
      · exact h
      · exact absurd hgrounded (not_grounded_of_stuck hstuck ha)
  | case3 w first rest ready _ round e he =>
      have hround : round.error = none := round_error hdistinct hfree
      rw [he] at hround
      contradiction
  | case4 w first rest ready waiting _ round hround later ih =>
      have htakes : Takes w ready round := registerEach_takes w ready hround
      obtain ⟨hdistinct, hfree⟩ := waiting_names hdistinct hfree htakes
      rw [ih hdistinct hfree, htakes.contains_iff, or_assoc]
      refine or_congr_right ⟨?_, ?_⟩
      · rintro (h | ⟨a, ha, hgrounded, rfl⟩)
        · obtain ⟨a, ha, rfl⟩ := List.mem_map.1 h
          obtain ⟨ha, hready⟩ := List.mem_filter.1 ha
          exact ⟨a, ha, grounded_of_ready hready, rfl⟩
        · exact ⟨a, (List.mem_filter.1 ha).1, (grounded_waiting_iff htakes).1 hgrounded, rfl⟩
      · rintro ⟨a, ha, hgrounded, rfl⟩
        by_cases hready : isReady w a = true
        · exact .inl (List.mem_map_of_mem (List.mem_filter.2 ⟨ha, hready⟩))
        · exact .inr ⟨a, List.mem_filter.2 ⟨ha, by simpa using hready⟩,
            (grounded_waiting_iff htakes).2 hgrounded, rfl⟩

/--
A registration of assets with different and free names fails only with a parent that is not
registered: that of the first asset that is not grounded.  The parent is missing altogether just
if it is not the class of another asset.  Without a cycle, an asset whose parent is missing
altogether stands at the end of the way up from the one that is told of.
-/
theorem registerAll_stuck (w : World) (assets : List Asset)
    (hdistinct : (assets.map className).Nodup)
    (hfree : ∀ a ∈ assets, w.classes.contains a.className = false) {e : AssetError}
    (h : (registerAll w assets).error = some e) :
    ∃ before a after p, assets = before ++ a :: after ∧
      (∀ b ∈ before, Grounded w.classes assets b) ∧ ¬Grounded w.classes assets a ∧
      e = .register a.className (.unknownParent a.className p) ∧ a.parent = some p ∧
      w.classes.contains p = false ∧
      (Lacks w.classes assets a p ↔ p ∉ assets.map className) ∧
      (Acyclic assets → ∃ b q, Relation.ReflTransGen (Under assets) a b ∧
        Lacks w.classes assets b q) := by
  classical
  rw [registerAll_error_eq w assets hdistinct hfree, Option.map_eq_some_iff] at h
  obtain ⟨a, hfirst, rfl⟩ := h
  obtain ⟨hstuck, before, after, hsplit, hbefore⟩ := List.find?_eq_some_iff_append.1 hfirst
  have hstuck : ¬Grounded w.classes assets a := of_decide_eq_true hstuck
  obtain ⟨p, hparent, hunregistered⟩ := parent_of_not_grounded hstuck
  have ha : a ∈ assets := hsplit ▸ List.mem_append_right _ List.mem_cons_self
  refine ⟨before, a, after, p, hsplit, fun b hb => ?_, hstuck, ?_, hparent, hunregistered,
    lacks_iff_of_not_grounded hstuck hparent, fun hacyclic => hacyclic.exists_lacks ha hstuck⟩
  · simpa using hbefore b hb
  · rw [stuckError, hparent, Option.getD_some]

example :
    let boss : Asset := ⟨1, "Boss", some "Enemy", default⟩
    let enemy : Asset := ⟨1, "Enemy", some "Ghost", default⟩
    let w : World := .empty .default .empty
    (registerAll w [boss, enemy]).error =
        some (.register "Boss" (.unknownParent "Boss" "Enemy")) ∧
      "Enemy" ∈ [boss, enemy].map className ∧ "Ghost" ∉ [boss, enemy].map className := by
  refine ⟨?_, by decide, by decide⟩
  cbv

end Asset

end Nodeflow
