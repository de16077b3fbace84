import Nodeflow.Proofs.Run.Cut
import Nodeflow.Proofs.World.Accounting
import Nodeflow.Proofs.World.Trails

/-!
# Waits that count ticks

Every tick polls once what was parked before it, and a continuation stays in the queue until
a poll meets its condition or its owner is taken out.  A condition that counts polls does not
ask what time they are for, so the chain goes on in just the tick it has waited for, unless that
tick panics first.
-/

namespace Nodeflow

/-! ## Counting polls -/

def Condition.ticks? : Condition → Option Nat
  | .frames remaining => some (max remaining 1)
  | .nextTick => some 1
  | .delay _ => none
  | .custom _ _ => none

namespace Condition

variable {c : Condition} {k : Nat}

theorem poll_met_iff (h : c.ticks? = some k) (dt : Float32) : (c.poll dt).2 = true ↔ k = 1 := by
  cases c with
  | frames remaining =>
      cases h
      simp only [poll, beq_iff_eq]
      omega
  | nextTick =>
      cases h
      simp [poll]
  | delay remaining => contradiction
  | custom memory step => contradiction

theorem ticks?_poll (h : c.ticks? = some (k + 1)) (hk : k ≠ 0) (dt : Float32) :
    (c.poll dt).1.ticks? = some k := by
  cases c with
  | frames remaining =>
      simp only [ticks?, Option.some.injEq] at h
      simp only [poll, ticks?, Option.some.injEq]
      omega
  | nextTick =>
      simp only [ticks?, Option.some.injEq] at h
      omega
  | delay remaining => contradiction
  | custom memory step => contradiction

theorem ticks?_after (h : c.ticks? = some k) {dts : List Float32} (hlt : dts.length < k) :
    (c.after dts).ticks? = some (k - dts.length) := by
  induction dts generalizing c k with
  | nil => exact h
  | cons dt dts ih =>
      rw [List.length_cons] at hlt
      obtain ⟨k, rfl⟩ : ∃ k', k = k' + 1 := ⟨k - 1, by omega⟩
      have hrest := ih (ticks?_poll h (by omega) dt) (by omega)
      rw [List.length_cons, Nat.add_sub_add_right]
      exact hrest

theorem met_iff (h : c.ticks? = some k) {dts : List Float32} (hlt : dts.length < k)
    (dt : Float32) : ((c.after dts).poll dt).2 = true ↔ dts.length + 1 = k := by
  rw [poll_met_iff (ticks?_after h hlt)]
  omega

end Condition

/-! ## Staying in the queue -/

def Operation.dt? : Operation → Option Float32
  | .tick dt => some dt
  | _ => none

def ticks (operations : List Operation) : List Float32 :=
  operations.filterMap Operation.dt?

namespace World

variable {w : World} {p : Parked}

theorem follow_eq_nil {waiting : Option Nat} {ready : List Parked}
    (h : ∀ q ∈ ready, waiting ≠ some q.id) : w.follow waiting ready = ([], waiting) := by
  induction ready generalizing w with
  | nil => rfl
  | cons q rest ih =>
      simp only [follow, if_neg (h q List.mem_cons_self)]
      split
      · rfl
      · exact ih fun q' hq' => h q' (List.mem_cons_of_mem q hq')

theorem mem_parked_perform (hp : p ∈ w.scheduler.parked) {operation : Operation}
    (htick : operation.dt? = none) (hdestroy : operation ≠ .destroy p.owner) :
    p ∈ (w.perform operation).1.scheduler.parked := by
  cases hqueue : leavesQueue operation with
  | true => exact perform_scheduler w operation hqueue ▸ hp
  | false =>
      cases operation with
      | dispatch id declared event args =>
          obtain ⟨⟨added, hadded, -⟩, -⟩ := dispatch_gains w id declared event args
          simp only [perform, hadded]
          exact List.mem_append_left added hp
      | destroy id =>
          have hne : p.owner ≠ id := fun howner => hdestroy (howner ▸ rfl)
          simp only [perform]
          split
          · rename_i hdestroyed
            obtain ⟨-, -, -, rfl⟩ := destroy_eq_some.1 hdestroyed
            exact List.mem_filter.2 ⟨hp, by simpa using hne⟩
          · exact hp
      | tick dt => contradiction
      | registerNative name parent => contradiction
      | registerGenerated name parent d => contradiction
      | spawn object => contradiction
      | setField id name value => contradiction

theorem mem_parked_tick (hp : p ∈ w.scheduler.parked) {dt : Float32}
    (hunmet : (p.poll dt).2 = false) : (p.poll dt).1 ∈ (w.tick dt).1.scheduler.parked := by
  have hkept := Scheduler.mem_poll_of_not_met hp (Bool.eq_false_iff.1 hunmet)
  obtain ⟨added, hqueue, -⟩ := w.tick_queue dt
  rw [hqueue]
  exact List.mem_append_left added hkept

theorem followThrough_tick_unmet (hw : Reached w) (hp : p ∈ w.scheduler.parked) {dt : Float32}
    (hunmet : (p.poll dt).2 = false) :
    w.followThrough (some p.id) (.tick dt) = ([], some p.id) := by
  refine follow_eq_nil fun q hq hid => ?_
  obtain ⟨p', hp', hmet, rfl⟩ := Scheduler.mem_ready_iff.1 hq
  obtain rfl := hw.numbered.eq_of_id_eq hp hp' (Option.some.inj hid)
  rw [hunmet] at hmet
  contradiction

theorem stays (hw : Reached w) (hp : p ∈ w.scheduler.parked) {operations : List Operation}
    (hdestroy : .destroy p.owner ∉ operations)
    (hunmet : ∀ earlier dt later, ticks operations = earlier ++ dt :: later →
      ((p.after earlier).poll dt).2 = false) :
    p.after (ticks operations) ∈ (w.performAll operations).scheduler.parked ∧
      ∀ more, w.sequel (some p.id) (operations ++ more) =
        (w.performAll operations).sequel (some p.id) more := by
  induction operations generalizing w p with
  | nil => exact ⟨hp, fun _ => rfl⟩
  | cons operation rest ih =>
      rw [List.mem_cons, not_or] at hdestroy
      obtain ⟨hfirst, hrest⟩ := hdestroy
      have hw' := hw.changes (perform_changes w operation)
      cases htick : operation.dt? with
      | none =>
          have hticks : ticks (operation :: rest) = ticks rest := by
            simp [ticks, htick]
          have hpass : w.followThrough (some p.id) operation = ([], some p.id) := by
            cases operation <;> first | rfl | contradiction
          rw [hticks] at hunmet ⊢
          obtain ⟨hstays, hsequel⟩ :=
            ih hw' (mem_parked_perform hp htick (Ne.symm hfirst)) hrest hunmet
          refine ⟨hstays, fun more => ?_⟩
          simp only [List.cons_append, sequel, hpass, List.nil_append, hsequel, performAll]
      | some dt =>
          obtain rfl : operation = .tick dt := by
            cases operation <;> simp_all [Operation.dt?]
          have hticks : ticks (.tick dt :: rest) = dt :: ticks rest := rfl
          rw [hticks] at hunmet ⊢
          have hfirst := hunmet [] dt (ticks rest) rfl
          obtain ⟨hstays, hsequel⟩ := ih hw' (mem_parked_tick hp hfirst) hrest
            fun earlier dt' later hsplit =>
              hunmet (dt :: earlier) dt' later (hsplit ▸ rfl)
          refine ⟨hstays, fun more => ?_⟩
          simp only [List.cons_append, sequel, followThrough_tick_unmet hw hp hfirst,
            List.nil_append, performAll]
          exact hsequel more

/-! ## Leaving the queue -/

theorem leg?_of_resumed {r : Resumption} (hr : (w.resumeParked p).2 = .resumed r) :
    ∃ leg, w.leg? p = some leg ∧ leg.status = r.status ∧
      r = leg.resumption p.owner p.continuation.className p.continuation.frame.event ∧
      leg.trace.head? = some (.resumed p.continuation.frame.event p.continuation.node) := by
  obtain ⟨entry, graph, outcome, status, hentry, hgraph, houtcome, -, hreported, -⟩ :=
    resumeParked_eq_resumed hr
  have hfound : w.found? p = some ⟨entry.object, graph.vars⟩ := by
    simp only [found?, hentry, hgraph, Option.bind_some, Option.map_some]
  refine ⟨⟨⟨entry.object, graph.vars⟩, p.continuation.frame.scope, status, outcome.trace⟩, ?_, ?_,
    hreported, by rw [houtcome]; rfl⟩
  · simp only [leg?, hfound, hr, Turn.resumption?, Option.bind_some, Option.map_some]
    rw [hreported]
  · rw [hreported]

theorem follow_of_mem (hw : Reached w) {ready : List Parked}
    (hsorted : ready.Pairwise fun q q' => q.id < q'.id)
    (hbelow : ∀ q ∈ ready, q.id < w.scheduler.nextId) (hready : ∀ q ∈ ready, w.Anchored q)
    (hp : p ∈ ready) (hlost : p ∉ (w.resumeAll ready).2.lost) :
    ∃ leg, (w.follow (some p.id) ready).1 = [leg] ∧
      leg.resumption p.owner p.continuation.className p.continuation.frame.event ∈
        (w.resumeAll ready).2.resumed ∧
      leg.trace.head? = some (.resumed p.continuation.frame.event p.continuation.node) := by
  induction ready generalizing w with
  | nil => contradiction
  | cons q rest ih =>
      obtain ⟨hq, hsorted⟩ := List.pairwise_cons.1 hsorted
      obtain ⟨r, hr⟩ : ∃ r, (w.resumeParked q).2 = .resumed r := by
        cases hturn : (w.resumeParked q).2 with
        | resumed r => exact ⟨r, rfl⟩
        | dropped => exact absurd hturn (hready q List.mem_cons_self).not_dropped
        | panicked =>
            rw [resumeAll_of_panicked rest hturn] at hlost
            contradiction
      rw [resumeAll_of_resumed rest hr] at hlost ⊢
      rcases List.mem_cons.1 hp with rfl | hp
      · obtain ⟨leg, hleg, -, hreported, htrace⟩ := leg?_of_resumed hr
        have hover : ∀ q ∈ rest, w.number? leg.status ≠ some q.id := by
          intro q hq' hnumber
          have := hbelow q (List.mem_cons_of_mem p hq')
          unfold number? at hnumber
          split at hnumber
          · have := Option.some.inj hnumber
            omega
          · contradiction
        refine ⟨leg, ?_, hreported ▸ List.mem_cons_self, htrace⟩
        simp only [follow, hr, hleg, follow_eq_nil hover, if_true]
      · have hne : some p.id ≠ some q.id := fun hid => by
          have := hq p hp
          have := Option.some.inj hid
          omega
        have hgains := (resumeParked_gains w q).nextId
        obtain ⟨leg, hfollow, hresumed, htrace⟩ := ih (hw.changes (resumeParked_changes w q))
          hsorted
          (fun q' hq' => Nat.lt_of_lt_of_le (hbelow q' (List.mem_cons_of_mem q hq')) hgains)
          (fun q' hq' => (hready q' (List.mem_cons_of_mem q hq')).resumeParked hw q) hp hlost
        refine ⟨leg, ?_, List.mem_cons_of_mem r hresumed, htrace⟩
        simp only [follow, hr, if_neg hne]
        exact hfollow

theorem resumes (hw : Reached w) (hslots : w.slots.length ≤ UInt32.size)
    (hp : p ∈ w.scheduler.parked) {dt : Float32} (hmet : (p.poll dt).2 = true)
    (hkept : ∀ q ∈ (w.tick dt).2.lost, q.id ≠ p.id) :
    ∃ leg, w.sequel (some p.id) [.tick dt] = [leg] ∧
      leg.resumption p.owner p.continuation.className p.continuation.frame.event ∈
        (w.tick dt).2.resumed ∧
      leg.trace.head? = some (.resumed p.continuation.frame.event p.continuation.node) ∧
      ∀ q ∈ (w.tick dt).1.scheduler.parked, q.id ≠ p.id := by
  have hpoll : Changes w { w with scheduler := (w.scheduler.poll dt).1 } := .single (.poll dt)
  have hsorted : (w.scheduler.poll dt).2.Pairwise fun q q' => q.id < q'.id := by
    refine List.pairwise_map.2 (List.Pairwise.sublist List.filter_sublist ?_)
    exact List.pairwise_map.2 hw.numbered.sorted
  have hbelow : ∀ q ∈ (w.scheduler.poll dt).2, q.id < w.scheduler.nextId := by
    intro q hq
    obtain ⟨p', hp', -, rfl⟩ := Scheduler.mem_ready_iff.1 hq
    exact hw.numbered.below p' hp'
  have hready : ∀ q ∈ (w.scheduler.poll dt).2,
      Anchored { w with scheduler := (w.scheduler.poll dt).1 } q := by
    intro q hq
    obtain ⟨p', hp', -, rfl⟩ := Scheduler.mem_ready_iff.1 hq
    exact (hw.anchored hslots p' hp').poll dt
  obtain ⟨leg, hfollow, hresumed, htrace⟩ := follow_of_mem (hw.changes hpoll) hsorted hbelow
    hready (Scheduler.mem_ready_iff.2 ⟨p, hp, hmet, rfl⟩) fun hlost => hkept _ hlost rfl
  refine ⟨leg, ?_, hresumed, htrace, fun q hq => ?_⟩
  · simp only [sequel, List.append_nil]
    exact hfollow
  · obtain ⟨added, hqueue, hadded⟩ := w.tick_queue dt
    rcases List.mem_append.1 (hqueue ▸ hq) with hq | hq
    · exact hw.numbered.ne_of_met hp hmet q hq
    · exact (Nat.lt_of_lt_of_le (hw.numbered.below p hp) (hadded q hq)).ne'

/--
What is parked is resumed in the tick of a number, counted from now on, and not before it,
whatever else is done and whatever time the ticks are for, unless its owner is taken out, there
are more slots than indices, or a panic of that very tick loses it.
-/
def ResumesIn (w : World) (p : Parked) (k : Nat) : Prop :=
  ∀ operations, .destroy p.owner ∉ operations →
    ((ticks operations).length < k →
      p.after (ticks operations) ∈ (w.performAll operations).scheduler.parked ∧
      w.sequel (some p.id) operations = []) ∧
    ∀ dt, (ticks operations).length + 1 = k →
      (w.performAll operations).slots.length ≤ UInt32.size →
      (∀ q ∈ ((w.performAll operations).tick dt).2.lost, q.id ≠ p.id) →
      ∃ leg, w.sequel (some p.id) (operations ++ [.tick dt]) = [leg] ∧
        leg.resumption p.owner p.continuation.className p.continuation.frame.event ∈
          ((w.performAll operations).tick dt).2.resumed ∧
        leg.trace.head? = some (.resumed p.continuation.frame.event p.continuation.node) ∧
        ∀ q ∈ ((w.performAll operations).tick dt).1.scheduler.parked, q.id ≠ p.id

theorem Reached.resumesIn (hw : Reached w) (hp : p ∈ w.scheduler.parked) {k : Nat}
    (hticks : p.continuation.condition.ticks? = some k) : w.ResumesIn p k := by
  intro operations hdestroy
  have hstays : (ticks operations).length < k →
      p.after (ticks operations) ∈ (w.performAll operations).scheduler.parked ∧
        ∀ more, w.sequel (some p.id) (operations ++ more) =
          (w.performAll operations).sequel (some p.id) more := by
    intro hlt
    refine stays hw hp hdestroy fun earlier dt later hsplit => ?_
    have hlength := congrArg List.length hsplit
    rw [List.length_append, List.length_cons] at hlength
    refine Bool.eq_false_iff.2 fun hmet => ?_
    have := (Condition.met_iff hticks (by omega) dt).1 hmet
    omega
  refine ⟨fun hlt => ?_, fun dt hk hslots hkept => ?_⟩
  · obtain ⟨hparked, hsequel⟩ := hstays hlt
    refine ⟨hparked, ?_⟩
    have hnone := hsequel []
    rw [List.append_nil] at hnone
    exact hnone
  · obtain ⟨hparked, hsequel⟩ := hstays (by omega)
    have hmet : ((p.after (ticks operations)).poll dt).2 = true :=
      (Condition.met_iff hticks (by omega) dt).2 hk
    rw [hsequel]
    exact resumes (hw.changes (performAll_changes w operations)) hslots hparked hmet hkept

/-! ## Entering the queue -/

end World

def Scheduler.since (s : Scheduler) (first : Nat) : List Parked :=
  s.parked.filter fun p => first ≤ p.id

theorem Scheduler.mem_since {s : Scheduler} {first : Nat} {p : Parked} :
    p ∈ s.since first ↔ p ∈ s.parked ∧ first ≤ p.id := by
  rw [since, List.mem_filter, decide_eq_true_eq]

theorem Scheduler.length_since {s : Scheduler} {first : Nat} {kept added : List Parked}
    (hparked : s.parked = kept ++ added) (hkept : ∀ p ∈ kept, p.id < first)
    (hadded : ∀ p ∈ added, first ≤ p.id) : (s.since first).length = added.length := by
  have hnone : kept.filter (fun p => first ≤ p.id) = [] := by
    simpa using hkept
  have hall : added.filter (fun p => first ≤ p.id) = added := by
    simpa using hadded
  rw [since, hparked, List.filter_append, hnone, hall, List.nil_append]

namespace World

variable {w : World} {p : Parked}

theorem perform_since (hw : Reached w) (operation : Operation) :
    ((w.perform operation).1.scheduler.since w.scheduler.nextId).length =
      (w.perform operation).2.suspensions := by
  cases operation with
  | dispatch id declared event args =>
      obtain ⟨⟨added, hparked, hadded⟩, -⟩ := dispatch_gains w id declared event args
      have hsize := dispatch_balance w id declared event args
      simp only [Scheduler.size, hparked, List.length_append] at hsize
      have hlength := Scheduler.length_since hparked hw.numbered.below hadded
      simp only [perform]
      omega
  | tick dt =>
      obtain ⟨added, hparked, hadded⟩ := w.tick_queue dt
      obtain ⟨hsize, -⟩ :=
        resumeAll_balance { w with scheduler := (w.scheduler.poll dt).1 } (w.scheduler.poll dt).2
      have hkept : ∀ p ∈ (w.scheduler.poll dt).1.parked, p.id < w.scheduler.nextId := by
        intro p hp
        obtain ⟨q, hq, rfl⟩ := Scheduler.mem_poll (.inl hp)
        exact hw.numbered.below q hq
      have hlength := Scheduler.length_since hparked hkept hadded
      simp only [tick] at hparked
      simp only [Scheduler.size, hparked, List.length_append] at hsize
      simp only [perform, Answer.suspensions, Answer.statuses, tick] at hlength ⊢
      omega
  | destroy id =>
      rw [Scheduler.length_since (List.append_nil _).symm
        (fun p hp => hw.numbered.below p (mem_parked_destroy hp)) (List.forall_mem_nil _)]
      simp only [perform]
      split <;> rfl
  | _ =>
      rw [perform_scheduler w _ rfl,
        Scheduler.length_since (List.append_nil _).symm hw.numbered.below
          (List.forall_mem_nil _)]
      simp only [perform]
      split <;> rfl

def LeftOver (w : World) (p : Parked) : Prop :=
  ∃ entry graph outcome, w.entry? p.owner = some entry ∧
    entry.graphs.find? p.continuation.className = some graph ∧
    graph.Segment w.registry w.config entry.object outcome ∧
    outcome.ending = .parked p.continuation

theorem Reached.leftOver (hw : Reached w) {id : ObjectId} {entry : Entry}
    (hentry : w.entry? id = some entry) {name : String} {graph : BoundGraph}
    (hgraph : entry.graphs.find? name = some graph) {outcome : Outcome}
    (hsegment : graph.Segment w.registry w.config entry.object outcome) {c : Continuation}
    (hparked : outcome.ending = .parked c) (n : Nat) : w.LeftOver ⟨n, id, c⟩ := by
  have hclass := (hsegment.parked hparked).1
  obtain ⟨className, hbound⟩ := hw.bound hentry
  have hname := (hbound.sound name graph hgraph).1
  exact ⟨entry, graph, outcome, hentry, by rw [hclass, hname, hgraph], hsegment, hparked⟩

theorem dispatch_parks (hw : Reached w) {id : ObjectId} {declared event : String}
    {args : EventArgs} (hp : p ∈ (w.dispatch id declared event args).1.scheduler.parked) :
    p ∈ w.scheduler.parked ∨ ∃ u, Changes w u ∧ u.LeftOver p := by
  unfold dispatch at hp
  split at hp
  · exact .inl hp
  · rename_i entry hentry
    split at hp
    · simp only at hp
      split at hp
      · exact .inl hp
      · rename_i found hoffer
        rcases mem_park hp with hold | ⟨c, hending, rfl⟩
        · exact .inl hold
        · obtain ⟨object, ⟨-, hnever⟩ | ⟨name, graph, hgraph, -, hran⟩⟩ := offer_eq_ok hoffer
          · exact absurd hending (hnever c)
          · -- The native classes before have been asked, and may have changed the object.
            have hasked : Changes w (w.setEntry id { entry with object }) :=
              .single (.work (.object object hentry))
            have hentry' := entry?_setEntry_self hentry { entry with object }
            refine .inr ⟨_, hasked, ?_⟩
            exact (hw.changes hasked).leftOver hentry' hgraph (.begun event args)
              (hran.symm.trans hending) _
    · exact .inl hp

theorem resumeParked_parks (hw : Reached w) {q : Parked}
    (hp : p ∈ (w.resumeParked q).1.scheduler.parked) :
    p ∈ w.scheduler.parked ∨ w.LeftOver p := by
  rcases w.resumeParked_cases q with hdropped | ⟨entry, graph, hentry, hgraph⟩
  · rw [hdropped] at hp
    exact .inl hp
  · rw [resumeParked_of_graph hentry hgraph] at hp
    rcases mem_park hp with hold | ⟨c, hending, rfl⟩
    · exact .inl hold
    · exact .inr (hw.leftOver hentry hgraph (.resumed q.continuation) hending _)

theorem resumeAll_parks (hw : Reached w) {ready : List Parked}
    (hp : p ∈ (w.resumeAll ready).1.scheduler.parked) :
    p ∈ w.scheduler.parked ∨ ∃ u, Changes w u ∧ u.LeftOver p := by
  induction ready generalizing w with
  | nil => exact .inl hp
  | cons q rest ih =>
      have hchanges := resumeParked_changes w q
      have hfirst : p ∈ (w.resumeParked q).1.scheduler.parked →
          p ∈ w.scheduler.parked ∨ ∃ u, Changes w u ∧ u.LeftOver p := fun hp =>
        (resumeParked_parks hw hp).imp_right fun hleft => ⟨w, .refl, hleft⟩
      rcases resumeAll_cons w q rest with ⟨hfst, -⟩ | hpanicked
      · rw [hfst] at hp
        rcases ih (hw.changes hchanges) hp with hp | ⟨u, hlater, hleft⟩
        · exact hfirst hp
        · exact .inr ⟨u, hchanges.trans hlater, hleft⟩
      · rw [hpanicked] at hp
        exact hfirst hp

theorem perform_parks (hw : Reached w) {operation : Operation}
    (hp : p ∈ (w.perform operation).1.scheduler.parked) (hnew : w.scheduler.nextId ≤ p.id) :
    ∃ u, Changes w u ∧ u.LeftOver p := by
  have hold : ∀ q ∈ w.scheduler.parked, q.id ≠ p.id := fun q hq =>
    Nat.ne_of_lt (Nat.lt_of_lt_of_le (hw.numbered.below q hq) hnew)
  cases hqueue : leavesQueue operation with
  | true => exact absurd rfl (hold p (perform_scheduler w operation hqueue ▸ hp))
  | false =>
      cases operation with
      | dispatch id declared event args =>
          exact (dispatch_parks hw hp).resolve_left fun hp => hold p hp rfl
      | tick dt =>
          have hpoll : Changes w { w with scheduler := (w.scheduler.poll dt).1 } :=
            .single (.poll dt)
          rcases resumeAll_parks (hw.changes hpoll) hp with hp | ⟨u, hchanges, hleft⟩
          · obtain ⟨q, hq, rfl⟩ := Scheduler.mem_poll (.inl hp)
            exact absurd rfl (hold q hq)
          · exact ⟨u, hpoll.trans hchanges, hleft⟩
      | destroy id => exact absurd rfl (hold p (mem_parked_destroy hp))
      | registerNative name parent => contradiction
      | registerGenerated name parent d => contradiction
      | spawn object => contradiction
      | setField id name value => contradiction

structure CutBy (w : World) (p : Parked) (call : CallSite) (invocation : Invocation) : Prop where
  made : ∃ entry graph frame current, w.entry? p.owner = some entry ∧
    entry.graphs.find? p.continuation.className = some graph ∧
    (continueFrame w.registry w.config graph entry.object frame current).ending =
      .parked p.continuation ∧
    graph.Calls w.registry w.config entry.object frame current call
  asDeclared : call.context.Meets call.capability.descriptor
  cut : p.continuation.CutBy call invocation

theorem LeftOver.cut (h : w.LeftOver p) (hw : Reached w) :
    ∃ call invocation, w.CutBy p call invocation := by
  obtain ⟨entry, graph, outcome, hentry, hgraph, hsegment, hparked⟩ := h
  obtain ⟨frame, current, hending⟩ := hsegment.exists_frame hparked
  obtain ⟨call, invocation, hcall, hcut⟩ := continueFrame_cut hending
  refine ⟨call, invocation, ⟨entry, graph, frame, current, hentry, hgraph, hending, hcall⟩, ?_,
    hcut⟩
  -- The program of the graph was built, so its calls are made as declared.
  obtain ⟨spawned, hbound⟩ := hw.bound hentry
  obtain ⟨-, -, c, hc, -, hblueprint⟩ := hbound.sound _ graph hgraph
  obtain ⟨d, hd⟩ := hw.built ((ClassTable.chainIn_sublist _ _).subset hc) hblueprint
  obtain ⟨program, hprogram, hcall⟩ := hcall
  exact hcall.meets (build_typed w.registry w.config d (hd ▸ hprogram))

/--
An operation parks one continuation for each suspension that it reports, of a run that it
begins or of one that it resumes.  The call of a latent capability has cut the run, which goes
on in just the tick that the call has asked for: after a number of frames in the tick of that
number, or in the first one if the number is zero, and in the next tick where that was asked
for, or nothing.
-/
theorem frame_waits_exact (hw : w.Reachable) (operation : Operation) :
    let after := (w.perform operation).1
    let parked := after.scheduler.since w.scheduler.nextId
    parked.length = (w.perform operation).2.suspensions ∧
    ∀ p ∈ parked, ∃ u call invocation, Changes w u ∧ u.CutBy p call invocation ∧
      (∀ value n, invocation = .suspend value (.frames n) → after.ResumesIn p (max n 1)) ∧
      (∀ value, invocation = .suspend value .nextTick → after.ResumesIn p 1) ∧
      (∀ value, invocation = .done value → after.ResumesIn p 1) ∧
      (call.capability = Builtin.waitFrames → ∃ i : Int64,
        call.context.args = [("frames", .int i)] ∧ 0 ≤ i.toInt ∧ i.toInt < UInt32.size ∧
        after.ResumesIn p (max i.toInt.toNat 1)) ∧
      (call.capability = Builtin.nextTick → after.ResumesIn p 1) := by
  intro after parked
  refine ⟨perform_since hw.reached operation, fun p hp => ?_⟩
  obtain ⟨hparked, hnew⟩ := Scheduler.mem_since.1 hp
  have hreached : Reached after := hw.reached.changes (perform_changes w operation)
  obtain ⟨u, hchanges, hleft⟩ := perform_parks hw.reached hparked hnew
  obtain ⟨call, invocation, hcut⟩ := hleft.cut (hw.reached.changes hchanges)
  have hwaits : ∀ condition k, invocation.awaited? = some condition →
      condition.ticks? = some k → after.ResumesIn p k := by
    intro condition k hcondition hk
    obtain rfl : condition = p.continuation.condition :=
      Option.some.inj (hcondition.symm.trans hcut.cut.waits)
    exact hreached.resumesIn hparked hk
  have hresult := hcut.cut.answers
  refine ⟨u, call, invocation, hchanges, hcut, ?_, ?_, ?_, fun hcall => ?_, fun hcall => ?_⟩
  · rintro value n rfl
    exact hwaits _ _ rfl rfl
  · rintro value rfl
    exact hwaits _ _ rfl rfl
  · rintro value rfl
    exact hwaits _ _ rfl rfl
  · rw [CallSite.result, hcall] at hresult
    obtain ⟨i, hargs, hnonneg, hlt, rfl⟩ := Builtin.waitFrames_ok (hcall ▸ hcut.asDeclared) hresult
    exact ⟨i, hargs, hnonneg, hlt, hwaits _ _ rfl rfl⟩
  · rw [CallSite.result, hcall] at hresult
    obtain rfl := Builtin.nextTick_ok hresult
    exact hwaits _ _ rfl rfl

def waitLonger : GraphDefinition :=
  ⟨.ofList [("Hit",
      ⟨[⟨"NextTick", [], .origin⟩, ⟨"WaitFrames", [.literal (.int 2)], .origin⟩], [⟨0, 1, 0⟩]⟩)],
    .ofList [("Hit", some 0)], ∅⟩

def hitWorld : World :=
  (empty .default (Registry.empty.registerAll [Builtin.nextTick, Builtin.waitFrames]).1).performAll
    [.registerGenerated "Enemy" none waitLonger, .spawn (.actor "Enemy"),
      .dispatch ⟨0, 0⟩ "Enemy" "Hit" ∅]

theorem frame_waits_exact_longer :
    hitWorld.Reachable ∧ (hitWorld.perform (.tick 1)).2.suspensions = 1 ∧
      ∃ p ∈ (hitWorld.perform (.tick 1)).1.scheduler.parked,
        p.continuation.condition = .frames 2 ∧ (hitWorld.perform (.tick 1)).1.ResumesIn p 2 := by
  have hreachable : hitWorld.Reachable := ⟨_, _, _, rfl⟩
  have hqueue : ((hitWorld.perform (.tick 1)).1.scheduler.since hitWorld.scheduler.nextId).map
      (fun p => p.continuation.condition) = [.frames 2] := by cbv
  obtain ⟨hlength, hexact⟩ := frame_waits_exact hreachable (.tick 1)
  obtain ⟨p, hp, hcondition⟩ : ∃ p ∈ (hitWorld.perform (.tick 1)).1.scheduler.since
      hitWorld.scheduler.nextId, p.continuation.condition = .frames 2 := by
    rw [← List.mem_map, hqueue]
    exact List.mem_singleton_self _
  refine ⟨hreachable, ?_, p, (Scheduler.mem_since.1 hp).1, hcondition, ?_⟩
  · have hone := congrArg List.length hqueue
    rw [List.length_map] at hone
    exact hlength.symm.trans hone
  obtain ⟨u, call, invocation, -, hcut, hframes, -⟩ := hexact p hp
  have hwaits := hcut.cut.waits
  rw [hcondition] at hwaits
  cases invocation with
  | done value => cases hwaits
  | panic => cases hwaits
  | suspend value condition =>
      obtain rfl : condition = .frames 2 := Option.some.inj hwaits
      exact hframes value 2 rfl

def waiting (w : World) : List (ObjectId × Condition) :=
  w.scheduler.parked.map fun p => (p.owner, p.continuation.condition)

/--
A chain that waits for the next tick is not resumed in it where another object has been put in
the place of its owner by then, or where a panic ends the tick before its turn.
-/
theorem frame_waits_missed :
    let crowded := [.registerNative "Crowd" none] ++ overrun
    pausedWorld.Reachable ∧ pausedWorld.waiting = [(⟨0, 0⟩, .nextTick)] ∧
      .destroy ⟨0, 0⟩ ∉ crowded ∧ ticks crowded = [] ∧
      (tick (pausedWorld.performAll crowded) 1).2.resumed = [] ∧
      (unhurt.performAll (hits Int64.minValue)).Reachable ∧
      (unhurt.performAll (hits Int64.minValue)).waiting =
        [(⟨0, 0⟩, .nextTick), (⟨1, 0⟩, .nextTick)] ∧
      (tick (unhurt.performAll (hits Int64.minValue)) 1).2.resumed = [] := by
  intro crowded
  have hspawns : ∀ operation ∈ overrun, operation = .spawn (.actor "Crowd") := by
    intro operation hmem
    rw [overrun, crowd] at hmem
    exact List.eq_of_mem_replicate hmem
  refine ⟨⟨_, _, _, rfl⟩, by cbv, fun hmem => ?_, ?_, ?_, ⟨_, _, _, rfl⟩, by cbv, tick_hits.1⟩
  · rcases List.mem_cons.1 hmem with h | h
    · cases h
    · cases hspawns _ h
  · refine List.filterMap_eq_nil_iff.2 fun operation hmem => ?_
    rcases List.mem_cons.1 hmem with rfl | h
    · rfl
    · rw [hspawns operation h]
      rfl
  · have hbeset : pausedWorld.performAll [.registerNative "Crowd" none] = besetWorld := rfl
    rw [performAll_append, hbeset, tick_overrun]

end World

end Nodeflow
