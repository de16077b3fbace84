import Mathlib
import Nodeflow.Player.Gameplay
import Nodeflow.Proofs.World.Binding

/-!
# The handler of an event

An event that concerns an object goes to the first class of the object's chain that takes
it: a generated class whose program has an entry node, or a native class for which the
object has an implementation.  This needs an object that is still of the class it was spawned
with, for it holds the graphs of that class's chain.  Where no class takes the event, asking
has changed nothing.
-/

namespace Nodeflow

/-! ## Native implementations -/

def Object.implements (o : Object) (className event : String) (args : EventArgs) : Bool :=
  match o.nature with
  | .actor _ natives => natives.any fun n => n.isFor className event
  | .custom memory rules =>
    (rules.native ⟨o.className, o.fields, memory⟩ className event args).2 != .missing

/-- Asking for an implementation that is missing leaves the object as it is. -/
def Object.Steady (o : Object) : Prop :=
  ∀ className event args, (o.callNative className event args).result = .missing →
    (o.callNative className event args).object = o

theorem Object.runNative_eq_none {className event : String} {fields : NameMap Value}
    {args : EventArgs} {natives : List Native} :
    runNative className event fields args natives = none ↔
      (natives.any fun n => n.isFor className event) = false := by
  induction natives with
  | nil => simp [runNative]
  | cons n rest ih =>
      unfold runNative
      cases hfor : n.isFor className event <;> simp [hfor, ih]

theorem Object.callNative_missing (o : Object) (className event : String) (args : EventArgs) :
    (o.callNative className event args).result = .missing ↔
      o.implements className event args = false := by
  obtain ⟨cls, fields, ⟨exposed, natives⟩ | ⟨memory, rules⟩⟩ := o
  · rw [implements, ← @runNative_eq_none className event fields args]
    unfold callNative
    dsimp only
    split <;> rename_i hrun <;> simp [hrun]
  · simp [callNative, implements]

theorem Object.steady_of_isActor {o : Object} (h : o.isActor = true) : o.Steady := by
  intro className event args hmissing
  obtain ⟨cls, fields, ⟨exposed, natives⟩ | ⟨memory, rules⟩⟩ := o
  · simp only [callNative] at hmissing ⊢
    split at hmissing
    · contradiction
    · contradiction
    · rename_i hrun
      rfl
  · contradiction

/-! ## The first class that takes an event -/

/-- Whether a class takes an event that is sent to an object of its own. -/
def ClassInfo.takes (c : ClassInfo) (o : Object) (event : String) (args : EventArgs) : Bool :=
  match c.blueprint with
  | some blueprint => ((blueprint.events.find? event).bind Program.entry?).isSome
  | none => o.implements c.name event args

def ClassInfo.handler (c : ClassInfo) : Handler :=
  if c.isGenerated then .graph c.name else .native c.name

def Entry.panics (registry : Registry) (config : RuntimeConfig) (event : String)
    (args : EventArgs) (entry : Entry) (c : ClassInfo) : Bool :=
  if c.isGenerated then
    (entry.graphs.find? c.name).any fun graph =>
      (runEvent registry config graph entry.object event args).ending.status?.isNone
  else (entry.object.callNative c.name event args).result == .panicked

section Offer

variable {registry : Registry} {config : RuntimeConfig} {event : String} {args : EventArgs}
  {entry : Entry} {chain : List ClassInfo}

theorem offer_cons_of_takes {c : ClassInfo} (rest : List ClassInfo)
    (hcomplete : ∀ b, c.blueprint = some b → (entry.graphs.find? c.name).isSome)
    (htakes : c.takes entry.object event args = true) :
    ∃ found, offer registry config event args entry (c :: rest) = .ok found ∧
      found.report.map DispatchReport.handler =
        if entry.panics registry config event args c then .error .panicked
        else .ok c.handler := by
  cases hblueprint : c.blueprint with
  | none =>
      have hfound : (entry.object.callNative c.name event args).result ≠ .missing := by
        rw [Ne, Object.callNative_missing]
        simpa only [ClassInfo.takes, hblueprint, Bool.not_eq_false] using htakes
      cases hresult : (entry.object.callNative c.name event args).result with
      | missing => contradiction
      | handled =>
          simp [offer, hblueprint, hresult, Found.report, Ending.status?, Except.map, Entry.panics,
            ClassInfo.handler, ClassInfo.isGenerated]
      | panicked =>
          simp [offer, hblueprint, hresult, Found.report, Ending.status?, Except.map, Entry.panics,
            ClassInfo.isGenerated]
  | some blueprint =>
      have hstart : ((blueprint.events.find? event).bind Program.entry?).isSome := by
        simpa only [ClassInfo.takes, hblueprint] using htakes
      obtain ⟨graph, hgraph⟩ := Option.isSome_iff_exists.1 (hcomplete blueprint hblueprint)
      cases hstatus : (runEvent registry config graph entry.object event args).ending.status? <;>
        simp [offer, Entry.runnable?, hstart, Found.report, Except.map, Entry.panics,
          ClassInfo.handler, ClassInfo.isGenerated, hblueprint, hgraph, hstatus]

theorem offer_cons_of_not_takes {c : ClassInfo} (rest : List ClassInfo)
    (hsteady : entry.object.Steady) (htakes : c.takes entry.object event args = false) :
    offer registry config event args entry (c :: rest) =
      offer registry config event args entry rest := by
  rw [offer]
  cases hblueprint : c.blueprint with
  | none =>
      have hmissing : (entry.object.callNative c.name event args).result = .missing := by
        rw [Object.callNative_missing]
        simpa only [ClassInfo.takes, hblueprint] using htakes
      simp only [hmissing, hsteady c.name event args hmissing]
  | some blueprint =>
      have hstart : ((blueprint.events.find? event).bind Program.entry?).isSome = false := by
        simpa only [ClassInfo.takes, hblueprint] using htakes
      simp [Entry.runnable?, hstart]

theorem offer_of_find?_eq_some (hsteady : entry.object.Steady)
    (hcomplete : ∀ c ∈ chain, ∀ b, c.blueprint = some b → (entry.graphs.find? c.name).isSome)
    {c : ClassInfo} (hfind : (chain.find? fun c => c.takes entry.object event args) = some c) :
    ∃ found, offer registry config event args entry chain = .ok found ∧
      found.report.map DispatchReport.handler =
        if entry.panics registry config event args c then .error .panicked
        else .ok c.handler := by
  induction chain with
  | nil => contradiction
  | cons d rest ih =>
      rw [List.find?_cons] at hfind
      split at hfind
      · rename_i htakes
        cases hfind
        exact offer_cons_of_takes rest (hcomplete c List.mem_cons_self) htakes
      · rename_i htakes
        rw [offer_cons_of_not_takes rest hsteady htakes]
        exact ih (fun c hc => hcomplete c (List.mem_cons_of_mem d hc)) hfind

theorem offer_of_find?_eq_none (hsteady : entry.object.Steady)
    (hfind : (chain.find? fun c => c.takes entry.object event args) = none) :
    offer registry config event args entry chain = .error entry := by
  induction chain with
  | nil => rfl
  | cons c rest ih =>
      rw [List.find?_cons] at hfind
      split at hfind
      · contradiction
      · rename_i htakes
        rw [offer_cons_of_not_takes rest hsteady htakes]
        exact ih hfind

theorem entry_of_offer_eq_error (hsteady : entry.object.Steady) {entry' : Entry}
    (h : offer registry config event args entry chain = .error entry') : entry' = entry := by
  induction chain with
  | nil => exact (Except.error.inj h).symm
  | cons c rest ih =>
      unfold offer at h
      split at h
      · simp only at h
        split at h
        · contradiction
        · contradiction
        · rename_i hmissing
          rw [hsteady c.name event args hmissing] at h
          exact ih h
      · split at h
        · exact ih h
        · contradiction

theorem handler_of_offer_eq_ok {found : Found}
    (h : offer registry config event args entry chain = .ok found) : found.handler ≠ .noOp := by
  induction chain generalizing entry with
  | nil => contradiction
  | cons c rest ih =>
      unfold offer at h
      split at h
      · simp only at h
        split at h
        · cases h
          exact Handler.noConfusion
        · cases h
          exact Handler.noConfusion
        · exact ih h
      · split at h
        · exact ih h
        · cases h
          exact Handler.noConfusion

end Offer

namespace World

section Dispatch

variable {w : World} {id : ObjectId} {entry : Entry} {declared event : String} {args : EventArgs}

theorem concerns_eq_false {o : Object} :
    w.concerns o declared event = false ↔
      w.classes.isA o.className declared = false ∨
        (o.responds event = false ∧
          ∀ c ∈ w.classes.chain o.className, c.defines event = false) := by
  cases hclass : w.classes.isA o.className declared <;>
    simp [concerns, ClassTable.graphDefines, hclass]

theorem dispatch_dead (declared event : String) (args : EventArgs) (h : w.entry? id = none) :
    w.dispatch id declared event args = (w, .error .unknownObject) := by
  simp only [dispatch, h]

theorem dispatch_ignored (hentry : w.entry? id = some entry)
    (args : EventArgs) (h : w.concerns entry.object declared event = false) :
    w.dispatch id declared event args = (w, .ok ⟨.noOp, .completed, [], []⟩) := by
  simp [dispatch, hentry, h]

theorem dispatch_unhandled (hentry : w.entry? id = some entry) (hsteady : entry.object.Steady)
    (h : w.concerns entry.object declared event = true)
    (hfind : ((w.classes.chain entry.object.className).find? fun c =>
      c.takes entry.object event args) = none) :
    w.dispatch id declared event args =
      (w, .error (.noImplementation entry.object.className event)) := by
  simp [dispatch, hentry, h, offer_of_find?_eq_none hsteady hfind, setEntry_self hentry]

theorem dispatch_handled (hbound : entry.BoundAs w.classes id entry.object.className)
    (hentry : w.entry? id = some entry) (hsteady : entry.object.Steady)
    (h : w.concerns entry.object declared event = true) {c : ClassInfo}
    (hfind : ((w.classes.chain entry.object.className).find? fun c =>
      c.takes entry.object event args) = some c) :
    (w.dispatch id declared event args).2.map DispatchReport.handler =
      if entry.panics w.registry w.config event args c then .error .panicked
      else .ok c.handler := by
  have hcomplete : ∀ c ∈ w.classes.chain entry.object.className, ∀ b, c.blueprint = some b →
      (entry.graphs.find? c.name).isSome := by
    intro c hc b hb
    obtain ⟨graph, hgraph, -⟩ := hbound.complete c hc b hb
    exact Option.isSome_iff_exists.2 ⟨graph, hgraph⟩
  obtain ⟨found, hoffer, hhandler⟩ : ∃ found,
      offer w.registry w.config event args entry (w.classes.chain entry.object.className) =
        .ok found ∧
      found.report.map DispatchReport.handler =
        if entry.panics w.registry w.config event args c then .error .panicked
        else .ok c.handler := offer_of_find?_eq_some hsteady hcomplete hfind
  simp only [dispatch, hentry, h, hoffer, if_true]
  exact hhandler

theorem dispatch_concerned (hentry : w.entry? id = some entry)
    (h : w.concerns entry.object declared event = true) :
    (w.dispatch id declared event args).2.map DispatchReport.handler ≠ .ok .noOp := by
  simp only [dispatch, hentry, h, if_true]
  split
  · nofun
  · rename_i found hoffer
    have hhandler := handler_of_offer_eq_ok hoffer
    simp only [Found.report]
    split
    · simpa [Except.map] using hhandler
    · nofun

theorem dispatch_unchanged (hsteady : ∀ o, w.object? id = some o → o.Steady)
    (hanswer : (w.dispatch id declared event args).2.map DispatchReport.handler = .ok .noOp ∨
      ∃ e, (w.dispatch id declared event args).2.map DispatchReport.handler = .error e ∧
        e ≠ .panicked) :
    (w.dispatch id declared event args).1 = w := by
  cases hentry : w.entry? id with
  | none => rw [dispatch_dead declared event args hentry]
  | some entry =>
      have hkeeps : entry.object.Steady := hsteady entry.object (by simp [object?, hentry])
      cases hconcerns : w.concerns entry.object declared event with
      | false => rw [dispatch_ignored hentry args hconcerns]
      | true =>
          rcases hanswer with hnoOp | ⟨e, he, hne⟩
          · exact absurd hnoOp (dispatch_concerned hentry hconcerns)
          · simp only [dispatch, hentry, hconcerns, if_true] at he ⊢
            split at he
            · rename_i hoffer
              rw [entry_of_offer_eq_error hkeeps hoffer]
              exact setEntry_self hentry
            · rename_i found hoffer
              simp only [Found.report] at he
              split at he
              · contradiction
              · cases he
                contradiction

end Dispatch

/--
An event goes to the first class of the chain that takes it, unless it does not concern the
object at all, and the code of that class answers it or panics.  This needs an object that is
still of the class it was spawned with, and that is unchanged by being asked for a native
implementation it does not have, as every actor is.  Where no code runs, the world stays as it
is.
-/
theorem dispatch_takes_first (config : RuntimeConfig) (registry : Registry)
    (operations : List Operation) {w : World}
    (hw : w = (empty config registry).performAll operations) (id : ObjectId)
    (hsteady : ∀ o, w.object? id = some o → o.isActor = true ∨ o.Steady)
    (declared event : String) (args : EventArgs) :
    let after := (w.dispatch id declared event args).1
    let answer := (w.dispatch id declared event args).2.map DispatchReport.handler
    (w.entry? id = none → answer = .error .unknownObject) ∧
    (∀ entry, w.entry? id = some entry →
      let o := entry.object
      let chain := w.classes.chain o.className
      let ignored := w.classes.isA o.className declared = false ∨
        (o.responds event = false ∧ ∀ c ∈ chain, c.defines event = false)
      (answer = .ok .noOp ↔ ignored) ∧
      (¬ignored →
        (empty config registry).spawnedAs (fun _ => none) operations id = some o.className →
        match chain.find? fun c => c.takes o event args with
        | some c =>
          answer = if entry.panics w.registry w.config event args c then .error .panicked
            else .ok c.handler
        | none => answer = .error (.noImplementation o.className event))) ∧
    (answer = .ok .noOp ∨ (∃ e, answer = .error e ∧ e ≠ .panicked) → after = w) := by
  intro after answer
  have hkeeps : ∀ o, w.object? id = some o → o.Steady := fun o ho =>
    (hsteady o ho).elim Object.steady_of_isActor fun h => h
  refine ⟨fun hnone => ?_, fun entry hentry => ?_, dispatch_unchanged hkeeps⟩
  · simp [answer, dispatch_dead declared event args hnone, Except.map]
  · intro o chain ignored
    have hignored : ignored ↔ w.concerns o declared event = false := concerns_eq_false.symm
    rw [hignored, Bool.not_eq_false]
    have hsteady : o.Steady := hkeeps o (by simp [object?, hentry, o])
    refine ⟨⟨fun hnoOp => ?_, fun hconcerns => ?_⟩, fun hconcerns hclass => ?_⟩
    · rw [← Bool.not_eq_true]
      exact fun hconcerns => dispatch_concerned hentry hconcerns hnoOp
    · simp [answer, dispatch_ignored hentry args hconcerns, Except.map]
    · have hbound : entry.BoundAs w.classes id o.className := by
        obtain ⟨className, hspawned, hbound⟩ := boundAs_spawnedAs (hw ▸ hentry)
        rw [hclass] at hspawned
        cases hspawned
        exact hw ▸ hbound
      cases hfind : chain.find? fun c => c.takes o event args with
      | none => simp [answer, dispatch_unhandled hentry hsteady hconcerns hfind, Except.map, o]
      | some c => exact dispatch_handled hbound hentry hsteady hconcerns hfind

def hitEnemy : Object :=
  (Object.actor "Enemy").withNative Gameplay.pawnOnHit

def enemyHistory : List Operation :=
  [.registerNative "Pawn" none,
    .registerGenerated "Enemy" (some "Pawn") (GraphDefinition.empty.declareEvent "onHit"),
    .spawn hitEnemy]

theorem dispatch_takes_first_enemy :
    let w := (empty .default .empty).performAll enemyHistory
    (∀ o, w.object? ⟨0, 0⟩ = some o → o.isActor = true ∨ o.Steady) ∧
      (empty .default .empty).spawnedAs (fun _ => none) enemyHistory ⟨0, 0⟩ = some "Enemy" ∧
      (w.dispatch ⟨0, 0⟩ "Pawn" "onHit" ∅).2.map DispatchReport.handler =
        .ok (.native "Pawn") := by
  intro w
  have hsteady : ∀ o, w.object? ⟨0, 0⟩ = some o → o.isActor = true ∨ o.Steady := by
    intro o ho
    obtain rfl : hitEnemy = o := Option.some.inj ho
    exact .inl rfl
  have hspawned : (empty .default .empty).spawnedAs (fun _ => none) enemyHistory ⟨0, 0⟩ =
      some "Enemy" := rfl
  refine ⟨hsteady, hspawned, ?_⟩
  obtain ⟨-, hlive, -⟩ := dispatch_takes_first .default .empty enemyHistory rfl ⟨0, 0⟩ hsteady
    "Pawn" "onHit" ∅
  exact (hlive ⟨hitEnemy, _⟩ rfl).2 (by decide) hspawned

def turncoat : Object :=
  ⟨"Pawn", ∅, .custom .unit
    { responds := fun _ _ => false
      setField := fun body _ _ => ({ body with className := "Enemy" }, .ok ())
      native := fun body _ _ _ => (body, .missing) }⟩

def turncoatWorld : World :=
  (empty .default (Registry.empty.registerAll [Builtin.nextTick]).1).performAll
    [.registerNative "Pawn" none,
      .registerGenerated "Enemy" none
        ⟨.ofList [("onHit", ⟨[⟨"NextTick", [], .origin⟩], []⟩)], .ofList [("onHit", some 0)], ∅⟩,
      .spawn turncoat, .setField ⟨0, 0⟩ "side" .unit]

def frailPawn : Object :=
  ((Object.actor "Pawn").withNative Gameplay.pawnOnHit).withField Gameplay.hitPoints
    (.int Int64.minValue)

def frailWorld : World :=
  (empty .default .empty).performAll [.registerNative "Pawn" none, .spawn frailPawn]

def aHit : EventArgs :=
  NameMap.empty.insert "damage" (.int 1)

/--
An object that has joined another class has none of its graphs, and the class does not answer
although it takes the event.  Neither does a handler that panics.
-/
theorem dispatch_misses_first :
    turncoatWorld.Reachable ∧
      (∃ o, turncoatWorld.object? ⟨0, 0⟩ = some o ∧ o.Steady ∧
        turncoatWorld.concerns o "Enemy" "onHit" = true ∧
        (turncoatWorld.classes.chain o.className).any (fun c => c.takes o "onHit" ∅) = true ∧
        (turncoatWorld.dispatch ⟨0, 0⟩ "Enemy" "onHit" ∅).2.map DispatchReport.handler =
          .error (.noImplementation "Enemy" "onHit")) ∧
      frailWorld.Reachable ∧
      ∃ o, frailWorld.object? ⟨0, 0⟩ = some o ∧ o.isActor = true ∧
        frailWorld.concerns o "Pawn" "onHit" = true ∧
        (frailWorld.classes.chain o.className).any (fun c => c.takes o "onHit" aHit) = true ∧
        (frailWorld.dispatch ⟨0, 0⟩ "Pawn" "onHit" aHit).2.map DispatchReport.handler =
          .error .panicked := by
  refine ⟨⟨_, _, _, rfl⟩, ⟨(turncoat.setField "side" .unit).2, ?_, ?_, ?_, ?_, ?_⟩,
    ⟨_, _, _, rfl⟩, ⟨frailPawn, rfl, rfl, ?_, ?_, ?_⟩⟩
  · cbv
  · exact fun _ _ _ _ => rfl
  · cbv
  · cbv
  · cbv
  · cbv
  · cbv
  · cbv

end World

end Nodeflow
