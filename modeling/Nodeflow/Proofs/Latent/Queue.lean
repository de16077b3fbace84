import Mathlib.Data.List.Nodup
import Nodeflow.Latent.Scheduler

/-!
# The queue of parked continuations

Continuations are numbered in the order in which they are parked, and a number is given
once.  Whatever happens to the queue, it stays sorted by number, and a number that has
left it never comes back.
-/

namespace Nodeflow

namespace Scheduler

variable {s s' : Scheduler} {n : Nat}

inductive Step : Scheduler → Scheduler → Prop
  | idle {s : Scheduler} : Step s s
  | suspend {s : Scheduler} (owner : ObjectId) (c : Continuation) : Step s (s.suspend owner c).1
  | cancel {s : Scheduler} (owner : ObjectId) : Step s (s.cancel owner)
  | poll {s : Scheduler} (dt : Float32) : Step s (s.poll dt).1

/-! ## Polls -/

theorem mem_poll {dt : Float32} {q : Parked}
    (hq : q ∈ (s.poll dt).1.parked ∨ q ∈ (s.poll dt).2) :
    ∃ p ∈ s.parked, q = (p.poll dt).1 := by
  simp only [poll, List.mem_map, List.mem_filter] at hq
  rcases hq with ⟨polled, ⟨⟨p, hp, rfl⟩, -⟩, rfl⟩ | ⟨polled, ⟨⟨p, hp, rfl⟩, -⟩, rfl⟩
  · exact ⟨p, hp, rfl⟩
  · exact ⟨p, hp, rfl⟩

theorem mem_ready_iff {dt : Float32} {q : Parked} :
    q ∈ (s.poll dt).2 ↔ ∃ p ∈ s.parked, (p.poll dt).2 = true ∧ q = (p.poll dt).1 := by
  simp only [poll, List.mem_map, List.mem_filter]
  constructor
  · rintro ⟨polled, ⟨⟨p, hp, rfl⟩, hmet⟩, rfl⟩
    exact ⟨p, hp, hmet, rfl⟩
  · rintro ⟨p, hp, hmet, rfl⟩
    exact ⟨_, ⟨⟨p, hp, rfl⟩, hmet⟩, rfl⟩

theorem mem_poll_of_not_met {dt : Float32} {p : Parked} (hp : p ∈ s.parked)
    (hunmet : ¬(p.poll dt).2 = true) : (p.poll dt).1 ∈ (s.poll dt).1.parked := by
  refine List.mem_map_of_mem (List.mem_filter.2 ⟨List.mem_map_of_mem hp, ?_⟩)
  simpa using hunmet

/-! ## Numbers -/

/-- The numbers of a queue go up, and the next number is above them all. -/
structure Numbered (s : Scheduler) : Prop where
  sorted : s.parked.Pairwise fun p q => p.id < q.id
  below : ∀ p ∈ s.parked, p.id < s.nextId

theorem Numbered.empty : Numbered empty := by
  constructor
  · exact .nil
  · intro p hp
    contradiction

theorem Numbered.step (h : Numbered s) (hstep : Step s s') : Numbered s' := by
  obtain ⟨hsorted, hbelow⟩ := h
  cases hstep with
  | idle => exact ⟨hsorted, hbelow⟩
  | suspend owner c =>
      constructor
      · refine List.pairwise_append.2 ⟨hsorted, List.pairwise_singleton _ _, ?_⟩
        intro p hp q hq
        obtain rfl := List.mem_singleton.1 hq
        exact hbelow p hp
      · intro p hp
        have hnext : (s.suspend owner c).1.nextId = s.nextId + 1 := rfl
        rcases List.mem_append.1 hp with hp | hp
        · have := hbelow p hp
          omega
        · obtain rfl := List.mem_singleton.1 hp
          simp only
          omega
  | cancel owner =>
      constructor
      · exact hsorted.sublist List.filter_sublist
      · intro p hp
        exact hbelow p (List.mem_filter.1 hp).1
  | poll dt =>
      constructor
      · refine List.pairwise_map.2 (List.Pairwise.sublist List.filter_sublist ?_)
        exact List.pairwise_map.2 hsorted
      · intro q hq
        obtain ⟨p, hp, rfl⟩ := mem_poll (.inl hq)
        exact hbelow p hp

theorem Numbered.eq_of_id_eq (h : Numbered s) {p q : Parked} (hp : p ∈ s.parked)
    (hq : q ∈ s.parked) (hid : p.id = q.id) : p = q := by
  have hnodup : (s.parked.map Parked.id).Nodup := by
    refine List.pairwise_map.2 (h.sorted.imp ?_)
    intro a b hlt
    omega
  exact List.inj_on_of_nodup_map hnodup hp hq hid

theorem Numbered.ne_of_met (h : Numbered s) {dt : Float32} {p : Parked} (hp : p ∈ s.parked)
    (hmet : (p.poll dt).2 = true) : ∀ q ∈ (s.poll dt).1.parked, q.id ≠ p.id := by
  intro q hq hid
  simp only [poll, List.mem_map, List.mem_filter] at hq
  obtain ⟨polled, ⟨⟨r, hr, rfl⟩, hunmet⟩, rfl⟩ := hq
  obtain rfl := h.eq_of_id_eq hr hp hid
  simp [hmet] at hunmet

structure Retired (n : Nat) (s : Scheduler) : Prop where
  given : n < s.nextId
  gone : ∀ p ∈ s.parked, p.id ≠ n

theorem Retired.step (h : Retired n s) (hstep : Step s s') : Retired n s' := by
  obtain ⟨hgiven, hgone⟩ := h
  cases hstep with
  | idle => exact ⟨hgiven, hgone⟩
  | suspend owner c =>
      constructor
      · exact Nat.lt_succ_of_lt hgiven
      · intro p hp
        rcases List.mem_append.1 hp with hp | hp
        · exact hgone p hp
        · obtain rfl := List.mem_singleton.1 hp
          simp only
          omega
  | cancel owner =>
      constructor
      · exact hgiven
      · intro p hp
        exact hgone p (List.mem_filter.1 hp).1
  | poll dt =>
      constructor
      · exact hgiven
      · intro q hq
        obtain ⟨p, hp, rfl⟩ := mem_poll (.inl hq)
        exact hgone p hp

theorem Numbered.retired_cancel (h : Numbered s) {p : Parked} (hp : p ∈ s.parked) :
    Retired p.id (s.cancel p.owner) := by
  constructor
  · exact h.below p hp
  · intro q hq hid
    obtain ⟨hq, howner⟩ := List.mem_filter.1 hq
    have heq := h.eq_of_id_eq hq hp hid
    simp [heq] at howner

/-! ## Queues that only grow -/

/-- Something may have been parked in the meantime, behind the rest and under new numbers. -/
structure Gains (s s' : Scheduler) : Prop where
  parked : ∃ added, s'.parked = s.parked ++ added ∧ ∀ p ∈ added, s.nextId ≤ p.id
  nextId : s.nextId ≤ s'.nextId

namespace Gains

theorem refl (s : Scheduler) : Gains s s :=
  ⟨⟨[], (List.append_nil _).symm, nofun⟩, Nat.le_refl _⟩

theorem suspend (s : Scheduler) (owner : ObjectId) (c : Continuation) :
    Gains s (s.suspend owner c).1 := by
  refine ⟨⟨_, rfl, fun p hp => ?_⟩, Nat.le_succ _⟩
  obtain rfl := List.mem_singleton.1 hp
  exact Nat.le_refl _

theorem trans {s'' : Scheduler} (h : Gains s s') (h' : Gains s' s'') : Gains s s'' := by
  obtain ⟨⟨added, hparked, hadded⟩, hnext⟩ := h
  obtain ⟨⟨added', hparked', hadded'⟩, hnext'⟩ := h'
  refine ⟨⟨added ++ added', ?_, fun p hp => ?_⟩, Nat.le_trans hnext hnext'⟩
  · rw [hparked', hparked, List.append_assoc]
  · rcases List.mem_append.1 hp with hp | hp
    · exact hadded p hp
    · exact Nat.le_trans hnext (hadded' p hp)

end Gains

end Scheduler

end Nodeflow
