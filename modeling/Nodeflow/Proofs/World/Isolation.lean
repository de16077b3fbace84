import Mathlib
import Nodeflow.Player.Gameplay
import Nodeflow.Proofs.World.Operation

/-!
# Objects are isolated

An object sees of a world the classes, which slots are taken, its own entry and its own
parked continuations.  An event sent to another object changes nothing of that, and every
operation brings about the same for an object in two worlds in which it sees the same.
Hence events sent to other objects can be left out of a history without the object
noticing, unless a tick panics over another object and loses what the object had waiting.
-/

namespace Nodeflow

@[ext]
structure View where
  config : RuntimeConfig
  registry : Registry
  classes : ClassTable
  occupancy : List (UInt32 × Bool)
  free : List UInt32
  entry : Option Entry
  waiting : List Continuation

def Slot.occupancy (slot : Slot) : UInt32 × Bool :=
  (slot.generation, slot.entry.isSome)

def waitingFor (a : ObjectId) (parked : List Parked) : List Continuation :=
  (parked.filter fun p => p.owner == a).map Parked.continuation

theorem waitingFor_eq_nil {a : ObjectId} {parked : List Parked} :
    waitingFor a parked = [] ↔ ∀ p ∈ parked, p.owner ≠ a := by
  simp [waitingFor]

namespace World

def seenBy (a : ObjectId) (w : World) : View where
  config := w.config
  registry := w.registry
  classes := w.classes
  occupancy := w.slots.map Slot.occupancy
  free := w.free
  entry := w.entry? a
  waiting := waitingFor a w.scheduler.parked

variable {a id : ObjectId} {v w : World} {entry : Entry}

/-! ## Changes that an object does not see -/

theorem map_occupancy_modify (slots : List Slot) (i : Nat) {f : Slot → Slot}
    {g : UInt32 × Bool → UInt32 × Bool} (hf : ∀ slot, (f slot).occupancy = g slot.occupancy) :
    (slots.modify i f).map Slot.occupancy = (slots.map Slot.occupancy).modify i g := by
  refine List.ext_getElem? fun j => ?_
  by_cases hj : i = j
  · subst hj
    cases hslot : slots[i]? <;> simp [hslot, hf]
  · simp [hj]

theorem occupancy_setEntry (hentry : w.entry? id = some entry) (entry' : Entry) :
    (w.setEntry id entry').slots.map Slot.occupancy = w.slots.map Slot.occupancy := by
  obtain ⟨slot, hslot, -, hhere⟩ := entry?_eq_some.1 hentry
  refine List.ext_getElem? fun i => ?_
  by_cases hi : id.index.toNat = i
  · subst hi
    simp [setEntry, hslot, Slot.occupancy, hhere]
  · simp [setEntry, hi]

theorem seenBy_setEntry_ne (hentry : w.entry? id = some entry) (entry' : Entry) (hne : id ≠ a) :
    (w.setEntry id entry').seenBy a = w.seenBy a := by
  simp only [seenBy, occupancy_setEntry hentry, entry?_setEntry_ne hentry entry' hne.symm]
  rfl

theorem seenBy_setEntry_self (hentry : w.entry? a = some entry) (entry' : Entry) :
    (w.setEntry a entry').seenBy a = { w.seenBy a with entry := some entry' } := by
  simp only [seenBy, occupancy_setEntry hentry, entry?_setEntry_self hentry]
  rfl

theorem seenBy_park_ne (w : World) (ending : Ending) (hne : id ≠ a) :
    (w.park id ending).seenBy a = w.seenBy a := by
  cases ending with
  | parked c => simp [seenBy, park, Scheduler.suspend, waitingFor, hne, entry?, slot?]
  | _ => rfl

def leftOver : Ending → List Continuation
  | .parked c => [c]
  | _ => []

theorem seenBy_park_self (w : World) (ending : Ending) :
    (w.park a ending).seenBy a =
      { w.seenBy a with waiting := (w.seenBy a).waiting ++ leftOver ending } := by
  cases ending with
  | parked c => simp [seenBy, park, Scheduler.suspend, waitingFor, leftOver, entry?, slot?]
  | _ => simp [seenBy, park, leftOver]

theorem seenBy_dispatch_ne (w : World) (hne : id ≠ a) (declared event : String)
    (args : EventArgs) : (w.dispatch id declared event args).1.seenBy a = w.seenBy a := by
  unfold dispatch
  split
  · rfl
  · rename_i entry hentry
    split
    · simp only
      split
      · exact seenBy_setEntry_ne hentry _ hne
      · simp only [seenBy_park_ne _ _ hne]
        exact seenBy_setEntry_ne hentry _ hne
    · rfl

theorem seenBy_resumeParked_ne (w : World) {p : Parked} (hne : p.owner ≠ a) :
    (w.resumeParked p).1.seenBy a = w.seenBy a := by
  rcases w.resumeParked_cases p with hdropped | ⟨entry, graph, hentry, hgraph⟩
  · rw [hdropped]
  · rw [resumeParked_of_graph hentry hgraph]
    exact (seenBy_park_ne _ _ hne).trans (seenBy_setEntry_ne hentry _ hne)

theorem owner_of_resumed {p : Parked} {r : Resumption} (h : (w.resumeParked p).2 = .resumed r) :
    r.owner = p.owner := by
  obtain ⟨_, _, _, _, -, -, -, -, rfl, -⟩ := resumeParked_eq_resumed h
  rfl

/-! ## Changes that depend on what an object sees -/

theorem entry?_isSome (w : World) (id : ObjectId) :
    (w.entry? id).isSome = ((w.slots.map Slot.occupancy)[id.index.toNat]?).any fun o =>
      o.1 == id.generation && o.2 := by
  cases hslot : w.slots[id.index.toNat]? with
  | none => simp [ entry?, slot?, hslot]
  | some slot =>
      by_cases hgeneration : slot.generation = id.generation <;>
        simp [ entry?, slot?, hslot, Option.filter, Slot.occupancy, hgeneration]

theorem waitingFor_cancel (s : Scheduler) (id : ObjectId) :
    waitingFor a (s.cancel id).parked = if a = id then [] else waitingFor a s.parked := by
  simp only [waitingFor, Scheduler.cancel, List.filter_filter]
  split
  · rename_i ha
    subst ha
    simp
  · rename_i ha
    congr 2
    funext p
    by_cases hp : p.owner = a
    · simp [hp, ha]
    · simp [hp]

theorem alike_iff :
    v.seenBy a = w.seenBy a ↔
      v.config = w.config ∧ v.registry = w.registry ∧ v.classes = w.classes ∧
        v.slots.map Slot.occupancy = w.slots.map Slot.occupancy ∧ v.free = w.free ∧
        v.entry? a = w.entry? a ∧
        waitingFor a v.scheduler.parked = waitingFor a w.scheduler.parked :=
  View.ext_iff

section Alike

variable (h : v.seenBy a = w.seenBy a)
include h

theorem alike_live (id : ObjectId) : (v.entry? id).isSome = (w.entry? id).isSome := by
  obtain ⟨-, -, -, hoccupancy, -⟩ := alike_iff.1 h
  rw [entry?_isSome, entry?_isSome, hoccupancy]

theorem alike_classes (classes : ClassTable) :
    ({ v with classes } : World).seenBy a = ({ w with classes } : World).seenBy a :=
  congrArg (fun view => { view with classes }) h

theorem alike_setEntry_self (hentry : v.entry? a = some entry) (hentry' : w.entry? a = some entry)
    (entry' : Entry) : (v.setEntry a entry').seenBy a = (w.setEntry a entry').seenBy a := by
  rw [seenBy_setEntry_self hentry, seenBy_setEntry_self hentry', h]

theorem alike_park_self (ending : Ending) :
    (v.park a ending).seenBy a = (w.park a ending).seenBy a := by
  rw [seenBy_park_self, seenBy_park_self, h]

theorem alike_opened :
    v.vacancy.1 = w.vacancy.1 ∧ v.opened.free = w.opened.free ∧
      v.opened.slots.map Slot.occupancy = w.opened.slots.map Slot.occupancy := by
  obtain ⟨-, -, -, hoccupancy, hfree, -⟩ := alike_iff.1 h
  have hlength : v.slots.length = w.slots.length := by
    simpa using congrArg List.length hoccupancy
  simp only [opened, vacancy, hfree, hlength]
  split
  · exact ⟨rfl, rfl, hoccupancy⟩
  · exact ⟨rfl, rfl, by simp [hoccupancy]⟩

theorem alike_nextHandle : v.nextHandle = w.nextHandle := by
  obtain ⟨hindex, -, hoccupancy⟩ := alike_opened h
  have hgeneration : ∀ u : World, u.opened.slots[u.vacancy.1.toNat]?.map Slot.generation =
      ((u.opened.slots.map Slot.occupancy)[u.vacancy.1.toNat]?).map Prod.fst := by
    intro u
    rw [List.getElem?_map, Option.map_map]
    rfl
  unfold nextHandle
  rw [hgeneration v, hgeneration w, hindex, hoccupancy]

theorem alike_spawn (entry : Entry) :
    (v.opened.setEntry v.nextHandle entry).seenBy a =
      (w.opened.setEntry w.nextHandle entry).seenBy a := by
  obtain ⟨hconfig, hregistry, hclasses, -, -, hsame, hwaiting⟩ := alike_iff.1 h
  obtain ⟨-, hfree, hoccupancy⟩ := alike_opened h
  have hhandle := alike_nextHandle h
  have hentry : entry? (v.opened.setEntry v.nextHandle entry) a =
      entry? (w.opened.setEntry w.nextHandle entry) a := by
    by_cases ha : a = w.nextHandle
    · have hslot := congrArg (fun l => (l[w.nextHandle.index.toNat]?).map fun _ => entry) hoccupancy
      simp only [List.getElem?_map, Option.map_map] at hslot
      rw [ha, ← hhandle, entry?_setEntry_nextHandle, hhandle, entry?_setEntry_nextHandle]
      exact hslot
    · rw [entry?_setEntry_nextHandle_ne w entry ha,
        entry?_setEntry_nextHandle_ne v entry (hhandle ▸ ha)]
      exact hsame
  have htaken : ∀ u : World, (u.opened.setEntry u.nextHandle entry).slots.map Slot.occupancy =
      (u.opened.slots.map Slot.occupancy).modify u.nextHandle.index.toNat fun o => (o.1, true) :=
    fun u => map_occupancy_modify _ _ fun slot => rfl
  refine alike_iff.2 ⟨hconfig, hregistry, hclasses, ?_, hfree, hentry, hwaiting⟩
  refine (htaken v).trans (Eq.trans ?_ (htaken w).symm)
  rw [hoccupancy, hhandle]

theorem alike_destroy {id : ObjectId} {v' w' : World} {object object' : Object}
    (hv : v.destroy id = some (v', object)) (hw : w.destroy id = some (w', object')) :
    v'.seenBy a = w'.seenBy a := by
  obtain ⟨hconfig, hregistry, hclasses, hoccupancy, hfree, hsame, hwaiting⟩ := alike_iff.1 h
  have hentry : v'.entry? a = w'.entry? a := by
    rw [entry?_destroy hv, entry?_destroy hw, hsame]
  obtain ⟨-, -, -, rfl⟩ := destroy_eq_some.1 hv
  obtain ⟨-, -, -, rfl⟩ := destroy_eq_some.1 hw
  refine alike_iff.2 ⟨hconfig, hregistry, hclasses, ?_, congrArg (id.index :: ·) hfree, hentry, ?_⟩
  · have hvacated : ∀ u : World,
        (u.slots.modify id.index.toNat fun slot => ⟨slot.generation + 1, none⟩).map
            Slot.occupancy =
          (u.slots.map Slot.occupancy).modify id.index.toNat fun o => (o.1 + 1, false) :=
      fun u => map_occupancy_modify _ _ fun slot => rfl
    refine (hvacated v).trans (Eq.trans ?_ (hvacated w).symm)
    rw [hoccupancy]
  · refine (waitingFor_cancel v.scheduler id).trans
      (Eq.trans ?_ (waitingFor_cancel w.scheduler id).symm)
    rw [hwaiting]

theorem alike_dispatch_self (declared event : String) (args : EventArgs) :
    (v.dispatch a declared event args).1.seenBy a =
        (w.dispatch a declared event args).1.seenBy a ∧
      (v.dispatch a declared event args).2 = (w.dispatch a declared event args).2 := by
  obtain ⟨hconfig, hregistry, hclasses, -, -, hsame, -⟩ := alike_iff.1 h
  unfold dispatch concerns
  rw [hsame, hclasses, hregistry, hconfig]
  cases hentry : w.entry? a with
  | none => exact ⟨h, rfl⟩
  | some entry =>
      rw [hentry] at hsame
      simp only
      split
      · split
        · exact ⟨alike_setEntry_self h hsame hentry _, rfl⟩
        · exact ⟨alike_park_self (alike_setEntry_self h hsame hentry _) _, rfl⟩
      · exact ⟨h, rfl⟩

end Alike

end World

/-! ## Ticks -/

def View.resume (view : View) (a : ObjectId) (c : Continuation) : View × World.Turn :=
  match view.entry with
  | none => (view, .dropped)
  | some entry =>
    match entry.graphs.find? c.className with
    | none => (view, .dropped)
    | some graph =>
      let outcome := Nodeflow.resume view.registry view.config graph entry.object c
      let after :=
        { view with
            entry := some (entry.after graph outcome.store)
            waiting := view.waiting ++ World.leftOver outcome.ending }
      match outcome.ending.status? with
      | some status => (after, .resumed ⟨a, c.className, c.frame.event, status, outcome.trace⟩)
      | none => (after, .panicked)

def View.resumeAll (view : View) (a : ObjectId) : List Continuation → View × List Resumption
  | [] => (view, [])
  | c :: rest =>
    match view.resume a c with
    | (view, .resumed r) =>
      let (view, resumed) := view.resumeAll a rest
      (view, r :: resumed)
    | (view, .dropped) => view.resumeAll a rest
    | (view, .panicked) => (view, [])

def TickReport.ofOwner (report : TickReport) (a : ObjectId) : List Resumption :=
  report.resumed.filter fun r => r.owner == a

/-- No tick has panicked, unless in a resumption of the object itself. -/
def Answer.Spares (answer : Answer) (a : ObjectId) : Prop :=
  ∀ p ∈ answer.lost.head?, p.owner = a

namespace TickReport

/-- What a tick has come to of what was ready: everything, or all up to what panicked. -/
def reached (report : TickReport) (ready : List Parked) : List Parked :=
  ready.take (report.resumed.length + report.dropped + 1)

variable (report : TickReport) (p : Parked) (rest : List Parked)

theorem reached_of_resumed (r : Resumption) :
    reached { report with resumed := r :: report.resumed } (p :: rest) =
      p :: report.reached rest := by
  simp only [reached, List.length_cons, Nat.add_right_comm _ 1, List.take_succ_cons]

theorem reached_of_dropped :
    reached { report with dropped := report.dropped + 1 } (p :: rest) =
      p :: report.reached rest := by
  simp only [reached, ← Nat.add_assoc, List.take_succ_cons]

theorem reached_of_panicked (lost : List Parked) : reached ⟨[], 0, lost⟩ (p :: rest) = [p] :=
  rfl

end TickReport

theorem waitingFor_cons_self (p : Parked) (rest : List Parked) :
    waitingFor p.owner (p :: rest) = p.continuation :: waitingFor p.owner rest := by
  simp [waitingFor]

theorem waitingFor_cons_ne {a : ObjectId} {p : Parked} (hne : p.owner ≠ a)
    (rest : List Parked) : waitingFor a (p :: rest) = waitingFor a rest := by
  simp [waitingFor, hne]

def polled (dt : Float32) (chosen : Bool → Bool) (waiting : List Continuation) :
    List Continuation :=
  (waiting.filter fun c => chosen (c.condition.poll dt).2).map fun c =>
    { c with condition := (c.condition.poll dt).1 }

theorem waitingFor_poll (a : ObjectId) (parked : List Parked) (dt : Float32)
    (chosen : Bool → Bool) :
    waitingFor a (((parked.map (·.poll dt)).filter fun p => chosen p.2).map Prod.fst) =
      polled dt chosen (waitingFor a parked) := by
  induction parked with
  | nil => rfl
  | cons p rest ih =>
      by_cases howner : p.owner = a <;>
        by_cases hchosen : chosen (p.continuation.condition.poll dt).2 = true <;>
          simp_all [polled, waitingFor, Parked.poll]

def View.tick (view : View) (a : ObjectId) (dt : Float32) : View × List Resumption :=
  View.resumeAll { view with waiting := polled dt (!·) view.waiting } a
    (polled dt (fun done => done) view.waiting)

namespace World

variable {a : ObjectId} {v w : World}

theorem resume_seenBy (w : World) (p : Parked) :
    (w.seenBy p.owner).resume p.owner p.continuation =
      ((w.resumeParked p).1.seenBy p.owner, (w.resumeParked p).2) := by
  have hseen : (w.seenBy p.owner).entry = w.entry? p.owner := rfl
  have hregistry : (w.seenBy p.owner).registry = w.registry := rfl
  have hconfig : (w.seenBy p.owner).config = w.config := rfl
  cases hentry : w.entry? p.owner with
  | none => simp only [View.resume, resumeParked, hseen, hentry]
  | some entry =>
      cases hgraph : entry.graphs.find? p.continuation.className with
      | none => simp only [View.resume, resumeParked, hseen, hentry, hgraph]
      | some graph =>
          simp only [View.resume, resumeParked_of_graph hentry hgraph, hseen, hentry, hgraph,
            hregistry, hconfig, seenBy_park_self, seenBy_setEntry_self hentry]
          cases (Nodeflow.resume w.registry w.config graph entry.object
            p.continuation).ending.status? <;> rfl

theorem seenBy_resumeAll (w : World) (ready : List Parked) :
    let report := (w.resumeAll ready).2
    let seen := (w.seenBy a).resumeAll a (waitingFor a (report.reached ready))
    (w.resumeAll ready).1.seenBy a = seen.1 ∧ report.ofOwner a = seen.2 ∧
      ((Answer.ticked report).Spares a →
        seen = (w.seenBy a).resumeAll a (waitingFor a ready)) := by
  induction ready generalizing w with
  | nil => exact ⟨rfl, rfl, fun _ => rfl⟩
  | cons p rest ih =>
      obtain ⟨hseen, hresumed, hspared⟩ := ih (w.resumeParked p).1
      by_cases howner : p.owner = a
      · subst howner
        cases hturn : (w.resumeParked p).2 with
        | resumed r =>
            have hmine : (r.owner == p.owner) = true := by
              rw [owner_of_resumed hturn]
              exact BEq.rfl
            rw [resumeAll_of_resumed rest hturn]
            simp only [TickReport.reached_of_resumed, waitingFor_cons_self, View.resumeAll,
              resume_seenBy, hturn]
            refine ⟨hseen, ?_, fun hspares => by rw [hspared hspares]⟩
            rw [← hresumed]
            exact List.filter_cons_of_pos hmine
        | dropped =>
            rw [resumeAll_of_dropped rest hturn]
            simp only [TickReport.reached_of_dropped, waitingFor_cons_self, View.resumeAll,
              resume_seenBy, hturn]
            exact ⟨hseen, hresumed, hspared⟩
        | panicked =>
            rw [resumeAll_of_panicked rest hturn]
            simp only [TickReport.reached_of_panicked, waitingFor_cons_self, View.resumeAll,
              resume_seenBy, hturn]
            exact ⟨trivial, rfl, fun _ => trivial⟩
      · -- Another object's continuation is left out on the other side.
        have hforeign := seenBy_resumeParked_ne w howner
        rw [hforeign] at hseen hresumed hspared
        cases hturn : (w.resumeParked p).2 with
        | resumed r =>
            have hother : ¬(r.owner == a) = true := by
              rw [owner_of_resumed hturn]
              simpa using howner
            rw [resumeAll_of_resumed rest hturn]
            simp only [TickReport.reached_of_resumed, waitingFor_cons_ne howner]
            refine ⟨hseen, ?_, hspared⟩
            rw [← hresumed]
            exact List.filter_cons_of_neg hother
        | dropped =>
            rw [resumeAll_of_dropped rest hturn]
            simp only [TickReport.reached_of_dropped, waitingFor_cons_ne howner]
            exact ⟨hseen, hresumed, hspared⟩
        | panicked =>
            rw [resumeAll_of_panicked rest hturn]
            simp only [TickReport.reached_of_panicked, waitingFor_cons_ne howner]
            exact ⟨hforeign, rfl, fun hspares => absurd (hspares p rfl) howner⟩

theorem seenBy_tick (w : World) (dt : Float32) :
    let report := (w.tick dt).2
    let polled := { w with scheduler := (w.scheduler.poll dt).1 }
    let seen := (seenBy a polled).resumeAll a
      (waitingFor a (report.reached (w.scheduler.poll dt).2))
    (w.tick dt).1.seenBy a = seen.1 ∧ report.ofOwner a = seen.2 ∧
      ((Answer.ticked report).Spares a → seen = (w.seenBy a).tick a dt) := by
  intro report polled seen
  have hparked : waitingFor a (w.scheduler.poll dt).1.parked =
      Nodeflow.polled dt (!·) (w.seenBy a).waiting := waitingFor_poll a _ dt (!·)
  have hready : waitingFor a (w.scheduler.poll dt).2 =
      Nodeflow.polled dt (fun done => done) (w.seenBy a).waiting :=
    waitingFor_poll a _ dt fun done => done
  have hpolled : polled.seenBy a =
      { w.seenBy a with waiting := Nodeflow.polled dt (!·) (w.seenBy a).waiting } := by
    rw [← hparked]
    rfl
  obtain ⟨hseen, hresumed, hspared⟩ := seenBy_resumeAll polled (w.scheduler.poll dt).2
  refine ⟨hseen, hresumed, fun hspares => (hspared hspares).trans ?_⟩
  rw [hready, hpolled]
  rfl

end World

/-! ## Histories -/

def Operation.isForeign (a : ObjectId) : Operation → Bool
  | .dispatch id .. => id != a
  | _ => false

inductive Notice where
  | dispatched (result : Except DispatchError DispatchReport)
  | ticked (resumed : List Resumption)

def Operation.notice (a : ObjectId) : Operation → Answer → Option Notice
  | .dispatch id .., .dispatched result => if id == a then some (.dispatched result) else none
  | .tick _, .ticked report => some (.ticked (report.ofOwner a))
  | _, _ => none

namespace World

variable {a : ObjectId} {v w : World}

def Spares (w : World) (a : ObjectId) (operations : List Operation) : Prop :=
  ∀ answer ∈ w.answers operations, answer.Spares a

def notices (a : ObjectId) (w : World) (operations : List Operation) : List Notice :=
  (operations.zip (w.answers operations)).filterMap fun (operation, answer) =>
    operation.notice a answer

theorem perform_foreign (w : World) {operation : Operation}
    (hforeign : operation.isForeign a = true) :
    (w.perform operation).1.seenBy a = w.seenBy a ∧
      operation.notice a (w.perform operation).2 = none := by
  cases operation with
  | dispatch id declared event args =>
      have hne : id ≠ a := by simpa [Operation.isForeign] using hforeign
      exact ⟨seenBy_dispatch_ne w hne declared event args, by simp [perform, Operation.notice, hne]⟩
  | _ => contradiction

theorem alike_perform_destroy (h : v.seenBy a = w.seenBy a) (id : ObjectId) :
    (v.perform (.destroy id)).1.seenBy a = (w.perform (.destroy id)).1.seenBy a := by
  have hlive := alike_live h id
  simp only [perform]
  cases hv : v.destroy id with
  | none =>
      cases hw : w.destroy id with
      | none => exact h
      | some _ => simp_all [destroy]
  | some _ =>
      cases hw : w.destroy id with
      | none => simp_all [destroy]
      | some _ => exact alike_destroy h hv hw

theorem alike_perform_setField (h : v.seenBy a = w.seenBy a) (id : ObjectId) (name : String)
    (value : Value) :
    (v.perform (.setField id name value)).1.seenBy a =
      (w.perform (.setField id name value)).1.seenBy a := by
  obtain ⟨-, -, -, -, -, hsame, -⟩ := alike_iff.1 h
  have hlive := alike_live h id
  simp only [perform, setField]
  cases hv : v.entry? id with
  | none =>
      cases hw : w.entry? id with
      | none => exact h
      | some _ => simp_all
  | some entry =>
      cases hw : w.entry? id with
      | none => simp_all
      | some entry' =>
          by_cases hid : id = a
          · subst hid
            obtain rfl : entry = entry' := Option.some.inj (hv ▸ hw ▸ hsame)
            exact alike_setEntry_self h hv hw _
          · exact (seenBy_setEntry_ne hv _ hid).trans
              (h.trans (seenBy_setEntry_ne hw _ hid).symm)

theorem alike_perform (h : v.seenBy a = w.seenBy a) {operation : Operation}
    (hkept : operation.isForeign a = false)
    (hvspares : (v.perform operation).2.Spares a)
    (hwspares : (w.perform operation).2.Spares a) :
    (v.perform operation).1.seenBy a = (w.perform operation).1.seenBy a ∧
      operation.notice a (v.perform operation).2 = operation.notice a (w.perform operation).2 := by
  obtain ⟨hconfig, hregistry, hclasses, -⟩ := alike_iff.1 h
  cases operation with
  | registerNative name parent =>
      refine ⟨?_, rfl⟩
      simp only [perform, registerNative, register, hclasses]
      cases w.classes.insert (.native name parent) with
      | error e => exact h
      | ok classes => exact alike_classes h classes
  | registerGenerated name parent d =>
      refine ⟨?_, rfl⟩
      have hbuild : d.build v.registry v.config = d.build w.registry w.config := by
        rw [hregistry, hconfig]
      simp only [perform, registerGenerated, register, hclasses, hbuild]
      cases w.classes.insert (.generated name parent (d.build w.registry w.config)) with
      | error e => exact h
      | ok classes => exact alike_classes h classes
  | spawn object =>
      refine ⟨?_, rfl⟩
      have hhandle := alike_nextHandle h
      by_cases hclass : w.classes.contains object.className = true
      · have hv := spawn_eq_ok.2 ⟨hclasses ▸ hclass, rfl, rfl⟩
        have hw := spawn_eq_ok.2 ⟨hclass, rfl, rfl⟩
        have hput := alike_spawn h ⟨object, bindGraphs w.classes object.className w.nextHandle⟩
        rw [hhandle] at hput
        simp only [perform, hv, hw, hclasses, hhandle]
        exact hput
      · simpa [perform, spawn, hclasses, hclass] using h
  | destroy id => exact ⟨alike_perform_destroy h id, rfl⟩
  | setField id name value => exact ⟨alike_perform_setField h id name value, rfl⟩
  | dispatch id declared event args =>
      obtain rfl : id = a := by simpa [Operation.isForeign] using hkept
      obtain ⟨hseen, hresult⟩ := alike_dispatch_self h declared event args
      exact ⟨hseen, by simp only [perform, Operation.notice, hresult]⟩
  | tick dt =>
      obtain ⟨hv, hvresumed, hvspared⟩ := seenBy_tick (a := a) v dt
      obtain ⟨hw, hwresumed, hwspared⟩ := seenBy_tick (a := a) w dt
      rw [hvspared hvspares, h] at hv hvresumed
      rw [hwspared hwspares] at hw hwresumed
      refine ⟨hv.trans hw.symm, ?_⟩
      simp only [perform, Operation.notice, hvresumed, hwresumed]

theorem Spares.cons {operation : Operation} {rest : List Operation}
    (h : w.Spares a (operation :: rest)) :
    (w.perform operation).2.Spares a ∧ (w.perform operation).1.Spares a rest :=
  List.forall_mem_cons.1 h

theorem alike_performAll (h : v.seenBy a = w.seenBy a) {operations : List Operation}
    (hv : v.Spares a (operations.filter fun o => !o.isForeign a)) (hw : w.Spares a operations) :
    (v.performAll (operations.filter fun o => !o.isForeign a)).seenBy a =
        (w.performAll operations).seenBy a ∧
      v.notices a (operations.filter fun o => !o.isForeign a) = w.notices a operations := by
  induction operations generalizing v w with
  | nil => exact ⟨h, rfl⟩
  | cons operation rest ih =>
      obtain ⟨hwfirst, hwrest⟩ := hw.cons
      cases hforeign : operation.isForeign a with
      | true =>
          obtain ⟨hseen, hnotice⟩ := perform_foreign w hforeign
          rw [List.filter_cons_of_neg (by simp [hforeign])] at hv ⊢
          obtain ⟨ihseen, ihnotices⟩ := ih (h.trans hseen.symm) hv hwrest
          refine ⟨ihseen, ihnotices.trans ?_⟩
          simp [notices, answers, hnotice]
      | false =>
          rw [List.filter_cons_of_pos (by simp [hforeign])] at hv ⊢
          obtain ⟨hvfirst, hvrest⟩ := hv.cons
          obtain ⟨hseen, hnotice⟩ := alike_perform h hforeign hvfirst hwfirst
          obtain ⟨ihseen, ihnotices⟩ := ih hseen hvrest hwrest
          refine ⟨ihseen, ?_⟩
          simp only [notices, answers, List.zip_cons_cons, List.filterMap_cons,
            hnotice] at ihnotices ⊢
          rw [ihnotices]

/--
Events sent to other objects can be left out of a history in which no tick panics over
another object, with them or without: the object is told the same, and has the same fields
and variables.
-/
theorem performAll_isolated (w : World) (a : ObjectId) (operations : List Operation) :
    let own := operations.filter fun operation => !operation.isForeign a
    w.Spares a own → w.Spares a operations →
      w.notices a own = w.notices a operations ∧
      (w.performAll own).object? a = (w.performAll operations).object? a ∧
      ∀ className,
        (w.performAll own).graph? a className =
          (w.performAll operations).graph? a className := by
  intro own hown hall
  obtain ⟨hseen, hnotices⟩ := alike_performAll (a := a) (w := w) rfl hown hall
  obtain ⟨-, -, -, -, -, hentry, -⟩ := alike_iff.1 hseen
  refine ⟨hnotices, ?_, fun className => ?_⟩
  · exact congrArg (Option.map Entry.object) hentry
  · exact congrArg (Option.bind · fun entry => entry.graphs.find? className) hentry

/-! ### Two enemies that are hurt in a tick -/

def hurtLater : GraphDefinition :=
  ⟨.ofList [("Hit",
      ⟨[⟨"NextTick", [], .origin⟩, ⟨"ApplyDamage", [.literal (.int 1)], .origin⟩], [⟨0, 1, 0⟩]⟩)],
    .ofList [("Hit", some 0)], ∅⟩

def unhurt : World :=
  empty .default (Registry.empty.registerAll [Builtin.nextTick, Gameplay.applyDamage]).1

def hits (points : Int64) : List Operation :=
  [.registerGenerated "Enemy" none hurtLater,
    .spawn ((Object.actor "Enemy").withField Gameplay.hitPoints (.int points)),
    .spawn ((Object.actor "Enemy").withField Gameplay.hitPoints (.int 10)),
    .dispatch ⟨0, 0⟩ "Enemy" "Hit" ∅, .dispatch ⟨1, 0⟩ "Enemy" "Hit" ∅]

theorem performAll_isolated_hits :
    let operations := hits 10 ++ [.tick 1]
    let own := operations.filter fun operation => !operation.isForeign ⟨1, 0⟩
    unhurt.Spares ⟨1, 0⟩ own ∧ unhurt.Spares ⟨1, 0⟩ operations ∧
      own.length + 1 = operations.length ∧
      unhurt.notices ⟨1, 0⟩ own = unhurt.notices ⟨1, 0⟩ operations := by
  intro operations own
  have hspares : ∀ history, ((unhurt.answers history).all fun answer => answer.lost.isEmpty) =
      true → unhurt.Spares ⟨1, 0⟩ history := by
    intro history hnone answer hanswer p hp
    have hempty := List.all_eq_true.1 hnone answer hanswer
    rw [List.isEmpty_iff.1 hempty] at hp
    contradiction
  have hown : unhurt.Spares ⟨1, 0⟩ own := hspares own (by cbv)
  have hall : unhurt.Spares ⟨1, 0⟩ operations := hspares operations (by cbv)
  exact ⟨hown, hall, rfl, (performAll_isolated unhurt ⟨1, 0⟩ operations hown hall).1⟩

theorem tick_hits :
    (tick (unhurt.performAll (hits Int64.minValue)) 1).2.resumed = [] ∧
      (tick (unhurt.performAll (hits Int64.minValue)) 1).2.lost.map Parked.owner =
        [⟨0, 0⟩, ⟨1, 0⟩] := by
  constructor
  · cbv
  · cbv

/--
Where the first enemy has the fewest hit points there can be, the tick comes to nothing for the
second one, which it would have hurt had the first not been hit.
-/
theorem performAll_not_isolated :
    let operations := hits Int64.minValue ++ [.tick 1]
    let own := operations.filter fun operation => !operation.isForeign ⟨1, 0⟩
    let points := fun o : Object => o.field? Gameplay.hitPoints
    ((unhurt.performAll own).object? ⟨1, 0⟩).bind points = some (.int 9) ∧
      ((unhurt.performAll operations).object? ⟨1, 0⟩).bind points = some (.int 10) := by
  intro operations own points
  constructor
  · cbv
  · cbv

end World

end Nodeflow
