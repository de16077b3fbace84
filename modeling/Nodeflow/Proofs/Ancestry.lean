import Mathlib.Data.List.Nodup
import Mathlib.Order.Defs.Unbundled
import Nodeflow.ClassTable

/-!
# Ancestors of a class

The chain of a class is a walk down the table, newest class first.  It is the ascent from
parent to parent, each looked up by its name, which meets no class twice and ends at a class
that names no parent.  Registering a further class leaves the chains of the registered ones
alone.
-/

namespace Nodeflow

namespace ClassTable

variable {t t' : ClassTable} {c : ClassInfo} {name : String}

theorem chainIn_sublist (classes : List ClassInfo) (name : String) :
    (chainIn classes name).Sublist classes := by
  induction classes generalizing name with
  | nil => exact .refl _
  | cons c older ih =>
      unfold chainIn
      split
      · split
        · exact (ih _).cons_cons c
        · exact .cons_cons c (List.nil_sublist older)
      · exact (ih name).cons c

theorem pairwise_names {classes : List ClassInfo} (h : Layered classes) :
    classes.Pairwise fun c d => c.name ≠ d.name := by
  induction classes with
  | nil => exact .nil
  | cons c older ih =>
      obtain ⟨hnew, -, holder⟩ := h
      exact .cons (fun d hd => (hnew d hd).symm) (ih holder)

theorem chain_names_nodup (t : ClassTable) (name : String) :
    ((t.chain name).map ClassInfo.name).Nodup := by
  refine List.pairwise_map.2 ?_
  exact (pairwise_names t.layered).sublist (chainIn_sublist t.classes name)

theorem insert_eq_ok (h : t.insert c = .ok t') :
    t'.classes = c :: t.classes ∧ t.contains c.name = false := by
  unfold insert at h
  split at h
  · contradiction
  · rename_i hnew
    split at h
    · cases h
      exact ⟨rfl, by simpa using hnew⟩
    · contradiction

theorem contains_insert (h : t.insert c = .ok t') (hname : t.contains name = true) :
    t'.contains name = true := by
  obtain ⟨hclasses, -⟩ := insert_eq_ok h
  obtain ⟨d, hd, rfl⟩ := contains_iff.1 hname
  exact contains_iff.2 ⟨d, hclasses ▸ List.mem_cons_of_mem c hd, rfl⟩

theorem chain_insert (h : t.insert c = .ok t') (hname : t.contains name = true) :
    t'.chain name = t.chain name := by
  obtain ⟨hclasses, hnew⟩ := insert_eq_ok h
  have hne : c.name ≠ name := by
    rintro rfl
    simp [hname] at hnew
  simp only [chain, hclasses, chainIn, if_neg hne]

theorem contains_eq_false_iff : t.contains name = false ↔ ∀ c ∈ t.classes, c.name ≠ name := by
  rw [← Bool.not_eq_true, contains_iff]
  push Not
  rfl

theorem get?_of_mem (hc : c ∈ t.classes) : t.get? c.name = some c := by
  obtain ⟨d, hd⟩ := Option.isSome_iff_exists.1 (contains_iff.2 ⟨c, hc, rfl⟩)
  have hname : d.name = c.name := by simpa using List.find?_some hd
  have hnodup : (t.classes.map ClassInfo.name).Nodup :=
    List.pairwise_map.2 (pairwise_names t.layered)
  rw [hd, List.inj_on_of_nodup_map hnodup (List.mem_of_find?_eq_some hd) hc hname]

/-! ## Registering a class -/

structure Accepts (t : ClassTable) (c : ClassInfo) : Prop where
  free : t.contains c.name = false
  founded : ∀ p ∈ c.parent, t.contains p = true

theorem exists_insert_iff : (∃ t', t.insert c = .ok t') ↔ t.Accepts c := by
  unfold insert
  constructor
  · rintro ⟨t', h⟩
    split at h
    · contradiction
    · rename_i hfree
      split at h
      · rename_i hparent
        exact ⟨by simpa using hfree, by simpa [Option.all_eq_true] using hparent⟩
      · contradiction
  · rintro ⟨hfree, hfounded⟩
    have hparent : c.parent.all t.contains = true := by simpa [Option.all_eq_true] using hfounded
    rw [dif_neg (by simp [hfree]), dif_pos hparent]
    exact ⟨_, rfl⟩

theorem get?_insert (h : t.insert c = .ok t') (name : String) :
    t'.get? name = if name = c.name then some c else t.get? name := by
  obtain ⟨hclasses, -⟩ := insert_eq_ok h
  simp only [get?, hclasses]
  by_cases hname : name = c.name
  · rw [if_pos hname, List.find?_cons_of_pos (by simp [hname])]
  · have hne : (c.name == name) = false := by simpa using Ne.symm hname
    rw [if_neg hname, List.find?_cons_of_neg (by simp [hne])]

/-! ## Going up from parent to parent -/

/-- Going from a class to its parent, looked up by its name, and so on, meets the classes of a
list and comes to an end. -/
inductive Ascent (t : ClassTable) : Option ClassInfo → List ClassInfo → Prop
  | top : Ascent t none []
  | up {c : ClassInfo} {rest : List ClassInfo} (hrest : Ascent t (c.parent.bind t.get?) rest) :
      Ascent t (some c) (c :: rest)

theorem Ascent.unique {start : Option ClassInfo} {l l' : List ClassInfo} (h : Ascent t start l)
    (h' : Ascent t start l') : l' = l := by
  induction h generalizing l' with
  | top =>
      cases h'
      rfl
  | up _ ih =>
      cases h' with
      | up hrest => rw [ih hrest]

theorem exists_parent {classes : List ClassInfo} (h : Layered classes) (hc : c ∈ classes)
    {p : String} (hp : p ∈ c.parent) : ∃ d ∈ classes, d.name = p := by
  induction classes with
  | nil => contradiction
  | cons newest older ih =>
      obtain ⟨-, hparent, holder⟩ := h
      rcases List.mem_cons.1 hc with rfl | hc
      · obtain ⟨d, hd, hname⟩ := hparent p hp
        exact ⟨d, List.mem_cons_of_mem _ hd, hname⟩
      · obtain ⟨d, hd, hname⟩ := ih holder hc
        exact ⟨d, List.mem_cons_of_mem _ hd, hname⟩

theorem chainIn_parent {newest : ClassInfo} {older : List ClassInfo}
    (h : Layered (newest :: older)) (hc : c ∈ newest :: older) :
    c.parent.elim [] (chainIn (newest :: older)) = c.parent.elim [] (chainIn older) := by
  obtain ⟨hnew, hparent, holder⟩ := h
  cases hp : c.parent with
  | none => rfl
  | some p =>
      obtain ⟨d, hd, rfl⟩ : ∃ d ∈ older, d.name = p := by
        rcases List.mem_cons.1 hc with rfl | hc
        · exact hparent p hp
        · exact exists_parent holder hc hp
      rw [Option.elim_some, Option.elim_some, chainIn, if_neg (hnew d hd).symm]

theorem chainIn_of_mem {classes : List ClassInfo} (h : Layered classes) (hc : c ∈ classes) :
    chainIn classes c.name = c :: c.parent.elim [] (chainIn classes) := by
  induction classes with
  | nil => contradiction
  | cons newest older ih =>
      rw [chainIn_parent h hc, chainIn]
      obtain ⟨hnew, -, holder⟩ := h
      rcases List.mem_cons.1 hc with rfl | hc
      · rw [if_pos rfl]
        cases c.parent <;> rfl
      · rw [if_neg (hnew c hc).symm, ih holder hc]

theorem mem_of_get? (h : t.get? name = some c) : c ∈ t.classes ∧ c.name = name :=
  ⟨List.mem_of_find?_eq_some h, by simpa using List.find?_some h⟩

theorem get?_eq_some_iff : t.get? name = some c ↔ c ∈ t.classes ∧ c.name = name := by
  constructor
  · exact mem_of_get?
  · rintro ⟨hc, rfl⟩
    exact get?_of_mem hc

theorem get?_perm (h : t'.classes.Perm t.classes) (name : String) : t'.get? name = t.get? name := by
  ext d
  rw [get?_eq_some_iff, get?_eq_some_iff, h.mem_iff]

theorem chain_of_get? (h : t.get? name = some c) :
    t.chain name = c :: c.parent.elim [] t.chain := by
  obtain ⟨hc, rfl⟩ := mem_of_get? h
  exact chainIn_of_mem t.layered hc

theorem chainIn_eq_nil {classes : List ClassInfo} (h : ∀ c ∈ classes, c.name ≠ name) :
    chainIn classes name = [] := by
  induction classes with
  | nil => rfl
  | cons c older ih =>
      rw [chainIn, if_neg (h c List.mem_cons_self)]
      exact ih fun d hd => h d (List.mem_cons_of_mem c hd)

theorem chain_of_get?_eq_none (h : t.get? name = none) : t.chain name = [] := by
  apply chainIn_eq_nil
  simpa [get?] using h

theorem ascent_chain (t : ClassTable) (name : String) :
    Ascent t (t.get? name) (t.chain name) := by
  generalize hl : t.chain name = l
  induction l generalizing name with
  | nil =>
      cases hget : t.get? name with
      | none => exact .top
      | some c => simp [chain_of_get? hget] at hl
  | cons d rest ih =>
      cases hget : t.get? name with
      | none => simp [chain_of_get?_eq_none hget] at hl
      | some c =>
          rw [chain_of_get? hget, List.cons.injEq] at hl
          obtain ⟨rfl, hrest⟩ := hl
          apply Ascent.up
          cases hp : c.parent with
          | none =>
              rw [hp] at hrest
              exact hrest ▸ .top
          | some p =>
              rw [hp] at hrest
              exact ih p hrest

theorem ascent_iff (t : ClassTable) (name : String) (l : List ClassInfo) :
    Ascent t (t.get? name) l ↔ l = t.chain name := by
  constructor
  · exact (ascent_chain t name).unique
  · rintro rfl
    exact ascent_chain t name

theorem chain_congr (h : ∀ name, t'.get? name = t.get? name) : t'.chain name = t.chain name := by
  have hget : t'.get? = t.get? := funext h
  refine ((ascent_iff t name _).1 ?_)
  have hascent : ∀ {start l}, Ascent t' start l → Ascent t start l := by
    intro start l hl
    induction hl with
    | top => exact .top
    | up _ ih => exact .up (hget ▸ ih)
  exact hget ▸ hascent (ascent_chain t' name)

theorem Ascent.chain_suffix {start : Option ClassInfo} {l : List ClassInfo} (h : Ascent t start l)
    (hstart : ∀ c ∈ start, c ∈ t.classes) (hc : c ∈ l) : t.chain c.name <:+ l := by
  induction h with
  | top => contradiction
  | @up d rest hrest ih =>
      rcases List.mem_cons.1 hc with rfl | hc
      · have hwhole : Ascent t (t.get? c.name) (c :: rest) := by
          rw [get?_of_mem (hstart c rfl)]
          exact .up hrest
        exact (ascent_iff t c.name _).1 hwhole ▸ List.suffix_refl _
      · refine (ih (fun e he => ?_) hc).trans (List.suffix_cons d rest)
        obtain ⟨p, -, hget⟩ := Option.bind_eq_some_iff.1 he
        exact (mem_of_get? hget).1

theorem chain_suffix (hc : c ∈ t.chain name) : t.chain c.name <:+ t.chain name :=
  (ascent_chain t name).chain_suffix (fun _ hd => (mem_of_get? hd).1) hc

theorem Ascent.exists_root {start : Option ClassInfo} {l : List ClassInfo} (h : Ascent t start l)
    (hstart : ∀ c ∈ start, c ∈ t.classes) (hsome : start.isSome = true) :
    ∃ root ∈ l.getLast?, root.parent = none := by
  induction h with
  | top => contradiction
  | @up c rest hrest ih =>
      cases hp : c.parent with
      | none =>
          rw [hp] at hrest
          cases hrest
          exact ⟨c, rfl, hp⟩
      | some p =>
          obtain ⟨d, hd, hname⟩ := exists_parent t.layered (hstart c rfl) hp
          have hget : c.parent.bind t.get? = some d := by
            rw [hp, Option.bind_some, ← hname, get?_of_mem hd]
          rw [hget] at hrest ih
          obtain ⟨root, hroot, hnone⟩ := ih (fun e he => Option.some.inj he ▸ hd) rfl
          refine ⟨root, ?_, hnone⟩
          cases hrest
          simpa using hroot

theorem exists_root (hname : t.contains name = true) :
    ∃ root ∈ (t.chain name).getLast?, root.parent = none :=
  (ascent_chain t name).exists_root (fun _ hd => (mem_of_get? hd).1) hname

/-! ## Inheriting -/

variable {a b : String}

theorem chain_head (ha : t.contains a = true) : ∃ c rest, t.chain a = c :: rest ∧ c.name = a := by
  obtain ⟨c, hget⟩ := Option.isSome_iff_exists.1 ha
  exact ⟨c, _, chain_of_get? hget, (mem_of_get? hget).2⟩

theorem isA_iff (ha : t.contains a = true) :
    t.isA a b = true ↔ ∃ c ∈ t.chain a, c.name = b := by
  obtain ⟨c, rest, hchain, hname⟩ := chain_head ha
  simp only [isA, Bool.or_eq_true, beq_iff_eq, List.any_eq_true]
  constructor
  · rintro (rfl | h)
    · exact ⟨c, by simp [hchain], hname⟩
    · exact h
  · exact .inr

theorem isA_suffix (ha : t.contains a = true) (h : t.isA a b = true) :
    t.chain b <:+ t.chain a := by
  obtain ⟨c, hc, rfl⟩ := (isA_iff ha).1 h
  exact chain_suffix hc

theorem isA_refl (t : ClassTable) (a : String) : t.isA a a = true := by
  simp [isA]

theorem isA_trans {c : String} (ha : t.contains a = true) (hb : t.contains b = true)
    (hab : t.isA a b = true) (hbc : t.isA b c = true) : t.isA a c = true := by
  obtain ⟨d, hd, hname⟩ := (isA_iff hb).1 hbc
  exact (isA_iff ha).2 ⟨d, (isA_suffix ha hab).subset hd, hname⟩

theorem isA_antisymm (ha : t.contains a = true) (hb : t.contains b = true)
    (hab : t.isA a b = true) (hba : t.isA b a = true) : a = b := by
  have hsame : t.chain b = t.chain a :=
    (isA_suffix ha hab).eq_of_length_le (isA_suffix hb hba).length_le
  obtain ⟨c, rest, hchain, rfl⟩ := chain_head ha
  obtain ⟨d, rest', hchain', rfl⟩ := chain_head hb
  rw [hchain, hchain'] at hsame
  rw [List.cons.inj hsame |>.1]

theorem isA_isPartialOrder (t : ClassTable) :
    IsPartialOrder {name // t.contains name = true} fun a b => t.isA a b = true where
  refl a := t.isA_refl a
  trans a b _ := isA_trans a.2 b.2
  antisymm a b hab hba := Subtype.ext (isA_antisymm a.2 b.2 hab hba)

/-! ## Tables that grow -/

/-- A later table has every class of an earlier one, and answers about it as that one did. -/
structure Keeps (t t' : ClassTable) : Prop where
  contains : ∀ name, t.contains name = true → t'.contains name = true
  get? : ∀ name, t.contains name = true → t'.get? name = t.get? name
  chain : ∀ name, t.contains name = true → t'.chain name = t.chain name

namespace Keeps

theorem refl (t : ClassTable) : t.Keeps t :=
  ⟨fun _ h => h, fun _ _ => rfl, fun _ _ => rfl⟩

theorem trans {t'' : ClassTable} (h : t.Keeps t') (h' : t'.Keeps t'') : t.Keeps t'' where
  contains name hname := h'.contains name (h.contains name hname)
  get? name hname := (h'.get? name (h.contains name hname)).trans (h.get? name hname)
  chain name hname := (h'.chain name (h.contains name hname)).trans (h.chain name hname)

theorem insert (h : t.insert c = .ok t') : t.Keeps t' where
  contains _ := contains_insert h
  get? name hname := by
    have hne : name ≠ c.name := by
      rintro rfl
      simp [(insert_eq_ok h).2] at hname
    rw [get?_insert h, if_neg hne]
  chain _ := chain_insert h

variable (h : t.Keeps t') (hname : t.contains name = true)
include h hname

theorem isA (other : String) : t'.isA name other = t.isA name other := by
  simp only [ClassTable.isA, h.chain name hname]

theorem graphDefines (event : String) : t'.graphDefines name event = t.graphDefines name event := by
  simp only [ClassTable.graphDefines, h.chain name hname]

end Keeps

end ClassTable

end Nodeflow
