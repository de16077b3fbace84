import Nodeflow.Proofs.Ancestry
import Nodeflow.Proofs.World.Operation

/-!
# Inheritance in a world

Whatever is done to a world, its classes form a forest: from every class the parents lead up to
a class without one, and inheriting is a partial order.  A class that is refused leaves the
world as it is, and one that is accepted changes nothing for the classes before it.
-/

namespace Nodeflow.World

variable {w w' : World}

def proposal? (w : World) : Operation → Option ClassInfo
  | .registerNative name parent => some (.native name parent)
  | .registerGenerated name parent d =>
      some (.generated name parent (d.build w.registry w.config))
  | _ => none

section Proposal

variable {operation : Operation} {c : ClassInfo}

theorem perform_accepted (hproposal : w.proposal? operation = some c) {classes : ClassTable}
    (hinsert : w.classes.insert c = .ok classes) :
    w.perform operation = ({ w with classes }, .registered (.ok c.diagnostics)) := by
  cases operation with
  | registerNative name parent =>
      cases hproposal
      simp only [perform, registerNative, register_eq_ok.2 ⟨classes, hinsert, rfl⟩]
      rfl
  | registerGenerated name parent d =>
      cases hproposal
      simp only [perform, registerGenerated_eq_ok.2 ⟨classes, hinsert, rfl, rfl⟩]
      rfl
  | _ => contradiction

theorem perform_refused (hproposal : w.proposal? operation = some c) {e : ClassError}
    (hinsert : w.classes.insert c = .error e) :
    w.perform operation = (w, .registered (.error e)) := by
  cases operation with
  | registerNative name parent =>
      cases hproposal
      simp only [perform, registerNative, register, hinsert, bind, Except.bind]
  | registerGenerated name parent d =>
      cases hproposal
      simp only [perform, registerGenerated, register, hinsert, bind, Except.bind]
  | _ => contradiction

theorem perform_of_accepts (hproposal : w.proposal? operation = some c)
    (haccepts : w.classes.Accepts c) :
    (w.perform operation).2 = .registered (.ok c.diagnostics) ∧
      ∀ name, (w.perform operation).1.classes.get? name =
        if name = c.name then some c else w.classes.get? name := by
  obtain ⟨classes, hinsert⟩ := ClassTable.exists_insert_iff.2 haccepts
  rw [perform_accepted hproposal hinsert]
  exact ⟨rfl, ClassTable.get?_insert hinsert⟩

theorem perform_of_not_accepts (hproposal : w.proposal? operation = some c)
    (hrefused : ¬w.classes.Accepts c) :
    ∃ e, w.perform operation = (w, .registered (.error e)) := by
  cases hinsert : w.classes.insert c with
  | ok classes => exact absurd (ClassTable.exists_insert_iff.1 ⟨classes, hinsert⟩) hrefused
  | error e => exact ⟨e, perform_refused hproposal hinsert⟩

end Proposal

theorem Changes.keeps (hchanges : Changes w w') : w.classes.Keeps w'.classes := by
  induction hchanges with
  | refl => exact .refl _
  | tail _ hchange ih =>
      rcases hchange.classes with hsame | ⟨c, hinsert, -⟩
      · exact hsame ▸ ih
      · exact ih.trans (.insert hinsert)

/--
In every history of a world, a class is registered where its name is free and its parent is
there, and it is then found beside the classes from before; otherwise its registration fails and
leaves the world as it is.  The chain of a class is what an ascent from parent to parent meets,
and the ascent ends: it begins with the class, meets no class twice, and ends at one that names
no parent.  Inheriting is a partial order of the classes, and means to be in the chain.  What is
done later changes nothing of that for a class that is there.
-/
theorem classes_forest (config : RuntimeConfig) (registry : Registry)
    (operations : List Operation) :
    let w := (empty config registry).performAll operations
    let t := w.classes
    (∀ operation c, w.proposal? operation = some c →
      (t.Accepts c → (w.perform operation).2 = .registered (.ok c.diagnostics) ∧
        ∀ name, (w.perform operation).1.classes.get? name =
          if name = c.name then some c else t.get? name) ∧
      (¬t.Accepts c → ∃ e, w.perform operation = (w, .registered (.error e)))) ∧
    (∀ name, t.contains name = true →
      (∀ l, t.Ascent (t.get? name) l ↔ l = t.chain name) ∧
      (∃ c rest, t.chain name = c :: rest ∧ c.name = name) ∧
      ((t.chain name).map ClassInfo.name).Nodup ∧
      ∃ root ∈ (t.chain name).getLast?, root.parent = none) ∧
    IsPartialOrder {name // t.contains name = true} (fun a b => t.isA a b = true) ∧
    (∀ a b, t.contains a = true → (t.isA a b = true ↔ ∃ c ∈ t.chain a, c.name = b)) ∧
    ∀ later name, t.contains name = true →
      let t' := (w.performAll later).classes
      t'.get? name = t.get? name ∧ t'.chain name = t.chain name ∧
      (∀ other, t'.isA name other = t.isA name other) ∧
      ∀ event, t'.graphDefines name event = t.graphDefines name event := by
  intro w t
  refine ⟨?_, ?_, t.isA_isPartialOrder, fun a b => ClassTable.isA_iff, ?_⟩
  · intro operation c hproposal
    constructor
    · exact perform_of_accepts hproposal
    · exact perform_of_not_accepts hproposal
  · intro name hname
    exact ⟨t.ascent_iff name, ClassTable.chain_head hname, t.chain_names_nodup name,
      ClassTable.exists_root hname⟩
  · intro later name hname t'
    have hkeeps : t.Keeps t' := Changes.keeps (performAll_changes w later)
    exact ⟨hkeeps.get? name hname, hkeeps.chain name hname, hkeeps.isA hname,
      hkeeps.graphDefines hname⟩

example :
    let operations : List Operation :=
      [.registerNative "Ghost" (some "Ghost"), .registerNative "Pawn" (some "Actor"),
        .registerNative "Actor" none, .registerNative "Pawn" (some "Actor"),
        .registerNative "Actor" (some "Pawn"), .registerNative "Enemy" (some "Pawn")]
    let t := ((empty .default .empty).performAll operations).classes
    (t.chain "Enemy").map ClassInfo.name = ["Enemy", "Pawn", "Actor"] ∧ t.size = 3 := by
  cbv

end Nodeflow.World
