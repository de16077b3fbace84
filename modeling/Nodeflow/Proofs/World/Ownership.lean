import Nodeflow.Proofs.World.Isolation
import Nodeflow.Proofs.World.Vacancy

/-!
# Objects change under their own handles

What an operation makes of an object is told here for the object alone: from its entry as it
was, from what the operation asks of it, and from what it has parked.  The entry that a handle
finds in a world is the one its object was put in with, changed in this way by one operation
after the other.
-/

namespace Nodeflow

def Operation.removes (id : ObjectId) : Operation → Bool
  | .destroy other => other == id
  | _ => false

/-! ## Resuming keeps the object -/

theorem View.resume_isSome (view : View) (a : ObjectId) (c : Continuation) :
    (view.resume a c).1.entry.isSome = view.entry.isSome := by
  unfold resume
  split
  · rfl
  · rename_i entry hentry
    split
    · rfl
    · dsimp only
      split <;> simp [hentry]

theorem View.resumeAll_isSome (view : View) (a : ObjectId) (ready : List Continuation) :
    (view.resumeAll a ready).1.entry.isSome = view.entry.isSome := by
  induction ready generalizing view with
  | nil => rfl
  | cons c rest ih =>
      have hfirst := view.resume_isSome a c
      unfold resumeAll
      split <;> rename_i hresume <;> rw [hresume] at hfirst
      · exact (ih _).trans hfirst
      · exact (ih _).trans hfirst
      · exact hfirst

namespace World

def received (w : World) (entry : Entry) (declared event : String) (args : EventArgs) : Entry :=
  if w.concerns entry.object declared event then
    match offer w.registry w.config event args entry (w.classes.chain entry.object.className) with
    | .error entry => entry
    | .ok found => found.entry
  else entry

def ticked (w : World) (id : ObjectId) (entry : Entry) (dt : Float32) : Entry :=
  let polled := { w with scheduler := (w.scheduler.poll dt).1 }
  let ready := waitingFor id ((w.tick dt).2.reached (w.scheduler.poll dt).2)
  ((View.resumeAll { polled.seenBy id with entry := some entry } id ready).1.entry).getD entry

def turned (w : World) (id : ObjectId) (entry : Entry) : Operation → Entry
  | .setField other name value =>
      if other = id then { entry with object := (entry.object.setField name value).2 } else entry
  | .dispatch other declared event args =>
      if other = id then w.received entry declared event args else entry
  | .tick dt => w.ticked id entry dt
  | _ => entry

/-- What operations make of the entry of an object, up to the one that takes the object out. -/
def fate (w : World) (id : ObjectId) (entry : Entry) : List Operation → Option Entry
  | [] => some entry
  | operation :: rest =>
      if operation.removes id then none
      else (w.perform operation).1.fate id (w.turned id entry operation) rest

variable {w w' : World} {id : ObjectId}

/-! ## One operation -/

theorem entry?_spawn_self (hw : Tidy w) {object : Object} (hspawn : w.spawn object = .ok (w', id)) :
    w'.entry? id = some ⟨object, bindGraphs w.classes object.className id⟩ := by
  obtain ⟨-, rfl, rfl⟩ := spawn_eq_ok.1 hspawn
  have hin : w.nextHandle.index.toNat < w.opened.slots.length := by
    cases hfree : w.free with
    | cons index rest =>
        have hplace : w.nextHandle.index = index := by simp [nextHandle, vacancy, hfree]
        obtain ⟨slot, hslot, -⟩ := (hw.vacant index).1 (by simp [hfree])
        rw [hplace]
        exact Nat.lt_of_lt_of_le (List.getElem?_eq_some_iff.1 hslot).1 (length_opened w)
    | nil =>
        have hplace : w.nextHandle.index = UInt32.ofNat w.slots.length := by
          simp [nextHandle, vacancy, hfree]
        have hmod := Nat.mod_le w.slots.length UInt32.size
        simp [hplace, opened, vacancy, hfree]
        omega
  rw [entry?_setEntry_nextHandle, List.getElem?_eq_getElem hin]
  rfl

theorem entry?_dispatch_self (w : World) (id : ObjectId) (declared event : String)
    (args : EventArgs) :
    entry? (w.dispatch id declared event args).1 id =
      (w.entry? id).map fun entry => w.received entry declared event args := by
  unfold dispatch
  cases hentry : w.entry? id with
  | none => exact hentry
  | some entry =>
      simp only [Option.map_some, received]
      split
      · cases offer w.registry w.config event args entry
          (w.classes.chain entry.object.className) with
        | error entry' => exact entry?_setEntry_self hentry entry'
        | ok found =>
            simp only [entry?_park]
            exact entry?_setEntry_self hentry found.entry
      · exact hentry

theorem entry?_tick (w : World) (id : ObjectId) (dt : Float32) :
    entry? (w.tick dt).1 id = (w.entry? id).map fun entry => w.ticked id entry dt := by
  let polled := { w with scheduler := (w.scheduler.poll dt).1 }
  let ready := waitingFor id ((w.tick dt).2.reached (w.scheduler.poll dt).2)
  have hseen : entry? (w.tick dt).1 id = ((polled.seenBy id).resumeAll id ready).1.entry :=
    congrArg View.entry (seenBy_tick w dt).1
  have hsome := View.resumeAll_isSome (polled.seenBy id) id ready
  have hown : (polled.seenBy id).entry = w.entry? id := rfl
  rw [hseen]
  cases hentry : w.entry? id with
  | none => simpa [hown, hentry] using hsome
  | some entry =>
      have hview : { polled.seenBy id with entry := some entry } = polled.seenBy id := by
        rw [← hentry]
        rfl
      obtain ⟨entry', hentry'⟩ := Option.isSome_iff_exists.1
        (hsome.trans (by rw [hown, hentry]; rfl))
      simp only [ticked, Option.map_some]
      rw [hentry', hview, hentry', Option.getD_some]

theorem entry?_perform (w : World) (id : ObjectId) {operation : Operation}
    (hgiven : (w.perform operation).2 ≠ .spawned (.ok id)) (hkept : operation.removes id = false) :
    entry? (w.perform operation).1 id =
      (w.entry? id).map fun entry => w.turned id entry operation := by
  have hsame : w.entry? id = (w.entry? id).map fun entry => entry := by simp
  cases operation with
  | registerNative name parent =>
      simp only [perform, registerNative, register]
      cases w.classes.insert (.native name parent) <;> exact hsame
  | registerGenerated name parent d =>
      simp only [perform, registerGenerated, register]
      cases w.classes.insert (.generated name parent (d.build w.registry w.config)) <;> exact hsame
  | spawn object =>
      simp only [perform] at hgiven ⊢
      cases hspawn : w.spawn object with
      | error e => exact hsame
      | ok result =>
          obtain ⟨w', id'⟩ := result
          have hne : id ≠ id' := by
            rintro rfl
            simp [hspawn] at hgiven
          exact (entry?_spawn_ne hspawn hne).trans hsame
  | destroy id' =>
      have hne : id ≠ id' := by
        rintro rfl
        simp [Operation.removes] at hkept
      simp only [perform]
      cases hdestroy : w.destroy id' with
      | none => exact hsame
      | some result =>
          refine Eq.trans ?_ hsame
          rw [entry?_destroy hdestroy, if_neg hne]
  | setField id' name value =>
      simp only [perform, setField, turned]
      cases hentry : w.entry? id' with
      | none =>
          by_cases hid : id' = id
          · subst hid
            simp [hentry]
          · simp [hid]
      | some entry =>
          simp only [Option.map_some]
          rw [entry?_setEntry hentry]
          by_cases hid : id' = id
          · subst hid
            simp [hentry]
          · simp [hid, Ne.symm hid]
  | dispatch id' declared event args =>
      by_cases hid : id' = id
      · subst hid
        simpa [perform, turned] using entry?_dispatch_self w id' declared event args
      · have hseen := congrArg View.entry (seenBy_dispatch_ne w hid declared event args)
        simp only [turned, if_neg hid]
        exact hseen.trans hsame
  | tick dt => exact entry?_tick w id dt

theorem entry?_perform_removes (w : World) (id : ObjectId) {operation : Operation}
    (hremoves : operation.removes id = true) : entry? (w.perform operation).1 id = none := by
  cases operation with
  | destroy id' =>
      obtain rfl : id' = id := by simpa [Operation.removes] using hremoves
      simp only [perform]
      cases hdestroy : w.destroy id' with
      | none => simpa [destroy] using hdestroy
      | some result => rw [entry?_destroy hdestroy, if_pos rfl]
  | _ => contradiction

/-! ## Histories -/

theorem entry?_performAll_none (hdead : w.entry? id = none) {operations : List Operation}
    (hgiven : .spawned (.ok id) ∉ w.answers operations) :
    entry? (w.performAll operations) id = none := by
  induction operations generalizing w with
  | nil => exact hdead
  | cons operation rest ih =>
      simp only [answers, List.mem_cons, not_or] at hgiven
      obtain ⟨hfirst, hrest⟩ := hgiven
      refine ih ?_ hrest
      cases hremoves : operation.removes id with
      | true => exact entry?_perform_removes w id hremoves
      | false => rw [entry?_perform w id (Ne.symm hfirst) hremoves, hdead, Option.map_none]

theorem entry?_performAll {entry : Entry} (hentry : w.entry? id = some entry)
    {operations : List Operation} (hgiven : .spawned (.ok id) ∉ w.answers operations) :
    entry? (w.performAll operations) id = w.fate id entry operations := by
  induction operations generalizing w entry with
  | nil => exact hentry
  | cons operation rest ih =>
      simp only [answers, List.mem_cons, not_or] at hgiven
      obtain ⟨hfirst, hrest⟩ := hgiven
      simp only [performAll, fate]
      cases hremoves : operation.removes id with
      | true => exact entry?_performAll_none (entry?_perform_removes w id hremoves) hrest
      | false =>
          refine ih ?_ hrest
          rw [entry?_perform w id (Ne.symm hfirst) hremoves, hentry, Option.map_some]

theorem fate_isSome (w : World) (id : ObjectId) (entry : Entry) (operations : List Operation) :
    (w.fate id entry operations).isSome = operations.all fun o => !o.removes id := by
  induction operations generalizing w entry with
  | nil => rfl
  | cons operation rest ih =>
      simp only [fate, List.all_cons]
      cases operation.removes id with
      | true => rfl
      | false => simpa using ih ..

end World

end Nodeflow
