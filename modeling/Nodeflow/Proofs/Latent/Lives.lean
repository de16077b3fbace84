import Mathlib.Data.List.Basic
import Nodeflow.Latent.Scheduler

/-!
# The lives of continuations

What becomes of a continuation depends on its own condition and on what is asked of the
scheduler from its suspension on, and on nothing else that is parked.  Its life is told here
for one continuation alone.  What a scheduler keeps and hands out is then read off the lives
of all that were suspended, in the order of their suspension.
-/

namespace Nodeflow

namespace Scheduler

/-! ## Serving requests -/

inductive Request where
  | suspend (owner : ObjectId) (c : Continuation)
  | poll (dt : Float32)
  | cancel (owner : ObjectId)

inductive Reply where
  | suspended (id : Nat)
  | ready (ready : List Parked)
  | cancelled (count : Nat)

namespace Request

def isSuspend : Request → Bool
  | .suspend _ _ => true
  | _ => false

def dt? : Request → Option Float32
  | .poll dt => some dt
  | _ => none

end Request

def answer (s : Scheduler) : Request → Scheduler × Reply
  | .suspend owner c => ((s.suspend owner c).1, .suspended (s.suspend owner c).2)
  | .poll dt => ((s.poll dt).1, .ready (s.poll dt).2)
  | .cancel owner => (s.cancel owner, .cancelled (s.pendingFor owner))

def serve (s : Scheduler) : List Request → Scheduler
  | [] => s
  | request :: rest => (s.answer request).1.serve rest

def replies (s : Scheduler) : List Request → List Reply
  | [] => []
  | request :: rest => (s.answer request).2 :: (s.answer request).1.replies rest

/-! ## One life -/

inductive Place where
  | parked
  | returned (moment : Nat)
  | removed (moment : Nat)
  deriving DecidableEq

/-- A continuation as it is, or as it was when it left. -/
structure Life where
  parked : Parked
  place : Place

def life (p : Parked) (moment : Nat) : List Request → Life
  | [] => ⟨p, .parked⟩
  | .suspend _ _ :: rest => life p (moment + 1) rest
  | .poll dt :: rest =>
      if (p.poll dt).2 then ⟨(p.poll dt).1, .returned moment⟩
      else life (p.poll dt).1 (moment + 1) rest
  | .cancel owner :: rest =>
      if p.owner = owner then ⟨p, .removed moment⟩ else life p (moment + 1) rest

def lives (next moment : Nat) : List Request → List Life
  | [] => []
  | .suspend owner c :: rest =>
      life ⟨next, owner, c⟩ (moment + 1) rest :: lives (next + 1) (moment + 1) rest
  | .poll _ :: rest => lives next (moment + 1) rest
  | .cancel _ :: rest => lives next (moment + 1) rest

def atPlace (place : Place) (lives : List Life) : List Parked :=
  (lives.filter fun life => life.place = place).map Life.parked

def livesFrom (s : Scheduler) (moment : Nat) (requests : List Request) : List Life :=
  s.parked.map (life · moment requests) ++ lives s.nextId moment requests

/-! ## What a life tells -/

end Scheduler

def Condition.after (c : Condition) (dts : List Float32) : Condition :=
  dts.foldl (fun c dt => (c.poll dt).1) c

def Parked.after (p : Parked) (dts : List Float32) : Parked :=
  { p with
    continuation := { p.continuation with condition := p.continuation.condition.after dts } }

namespace Scheduler

namespace Life

def seen (l : Life) (moment : Nat) (requests : List Request) : List Float32 :=
  match l.place with
  | .parked => requests.filterMap Request.dt?
  | .returned i => (requests.take (i + 1 - moment)).filterMap Request.dt?
  | .removed i => (requests.take (i + 1 - moment)).filterMap Request.dt?

/-- What has left was returned by a poll, or removed by a cancel of its own owner. -/
def LeftBy (l : Life) (moment : Nat) (requests : List Request) : Prop :=
  match l.place with
  | .parked => True
  | .returned i => moment ≤ i ∧ ∃ dt, requests[i - moment]? = some (.poll dt)
  | .removed i => moment ≤ i ∧ requests[i - moment]? = some (.cancel l.parked.owner)

structure Told (l : Life) (p : Parked) (moment : Nat) (requests : List Request) : Prop where
  leftBy : l.LeftBy moment requests
  kept : l.parked = p.after (l.seen moment requests)
  met : ∀ earlier dt later, l.seen moment requests = earlier ++ dt :: later →
    (((p.continuation.condition.after earlier).poll dt).2 = true ↔
      later = [] ∧ ∃ i, l.place = .returned i)

variable {l : Life} {moment : Nat} {request : Request} {rest : List Request}

theorem LeftBy.cons (h : l.LeftBy (moment + 1) rest) : l.LeftBy moment (request :: rest) := by
  unfold LeftBy at *
  split at h
  · trivial
  all_goals
    rename_i i _
    obtain ⟨hle, hrequest⟩ := h
    have hsub : i - moment = i - (moment + 1) + 1 := by omega
    rw [hsub, List.getElem?_cons_succ]
    exact ⟨Nat.le_of_succ_le hle, hrequest⟩

theorem LeftBy.place_ne (h : l.LeftBy (moment + 1) rest) :
    l.place ≠ .returned moment ∧ l.place ≠ .removed moment := by
  constructor
  all_goals
    intro hplace
    simp only [LeftBy, hplace] at h
    omega

theorem LeftBy.seen_cons (h : l.LeftBy (moment + 1) rest) :
    l.seen moment (request :: rest) = request.dt?.toList ++ l.seen (moment + 1) rest := by
  have hcons : ∀ requests : List Request, (request :: requests).filterMap Request.dt? =
      request.dt?.toList ++ requests.filterMap Request.dt? := by
    intro requests
    cases hdt : request.dt? <;> simp [hdt]
  unfold LeftBy at h
  unfold seen
  split at h
  · exact hcons rest
  all_goals
    rename_i i _
    have hsub : i + 1 - moment = i + 1 - (moment + 1) + 1 := by omega
    rw [hsub, List.take_succ_cons, hcons]

theorem LeftBy.seen_ne_nil {requests : List Request} (h : l.LeftBy moment requests) {i : Nat}
    (hplace : l.place = .returned i) : l.seen moment requests ≠ [] := by
  simp only [LeftBy, hplace] at h
  obtain ⟨hle, dt, hpoll⟩ := h
  have hmem : Request.poll dt ∈ requests.take (i + 1 - moment) := by
    refine List.mem_of_getElem? (i := i - moment) ?_
    rw [List.getElem?_take_of_lt (by omega), hpoll]
  have hdt : dt ∈ l.seen moment requests := by
    simp only [seen, hplace]
    exact List.mem_filterMap.2 ⟨_, hmem, rfl⟩
  exact List.ne_nil_of_mem hdt

theorem Told.parked {p : Parked} : Told ⟨p, .parked⟩ p moment [] := by
  refine ⟨trivial, rfl, ?_⟩
  intro earlier dt later hsplit
  simp [seen] at hsplit

theorem Told.returned {p : Parked} {dt : Float32} (hmet : (p.poll dt).2 = true) :
    Told ⟨(p.poll dt).1, .returned moment⟩ p moment (.poll dt :: rest) := by
  have hseen : seen ⟨(p.poll dt).1, .returned moment⟩ moment (.poll dt :: rest) = [dt] := by
    simp [seen, Request.dt?]
  refine ⟨⟨Nat.le_refl _, dt, by simp⟩, by rw [hseen]; rfl, ?_⟩
  intro earlier dt' later hsplit
  rw [hseen, eq_comm, List.append_eq_singleton_iff] at hsplit
  obtain ⟨rfl, hlast⟩ | ⟨-, hnone⟩ := hsplit
  · obtain ⟨rfl, rfl⟩ := List.cons.inj hlast
    exact iff_of_true hmet ⟨rfl, moment, rfl⟩
  · contradiction

theorem Told.removed {p : Parked} {owner : ObjectId} (howner : p.owner = owner) :
    Told ⟨p, .removed moment⟩ p moment (.cancel owner :: rest) := by
  have hseen : seen ⟨p, .removed moment⟩ moment (.cancel owner :: rest) = [] := by
    simp [seen, Request.dt?]
  refine ⟨⟨Nat.le_refl _, by simp [howner]⟩, by rw [hseen]; rfl, ?_⟩
  intro earlier dt later hsplit
  simp [hseen] at hsplit

theorem Told.cons {p : Parked} (h : l.Told (p.after request.dt?.toList) (moment + 1) rest)
    (hunmet : ∀ dt, request.dt? = some dt → (p.poll dt).2 = false) :
    l.Told p moment (request :: rest) := by
  have hseen : l.seen moment (request :: rest) =
      request.dt?.toList ++ l.seen (moment + 1) rest := h.leftBy.seen_cons
  refine ⟨h.leftBy.cons, ?_, ?_⟩
  · rw [h.kept, hseen]
    cases request.dt? <;> rfl
  · intro earlier dt later hsplit
    rw [hseen] at hsplit
    cases hdt : request.dt? with
    | none =>
        rw [hdt] at hsplit h
        exact h.met earlier dt later hsplit
    | some first =>
        rw [hdt] at hsplit h
        cases earlier with
        | nil =>
            obtain ⟨rfl, rfl⟩ := List.cons.inj hsplit
            refine iff_of_false ?_ ?_
            · simpa [Parked.poll, Condition.after] using hunmet first hdt
            · rintro ⟨hnil, i, hplace⟩
              exact h.leftBy.seen_ne_nil hplace hnil
        | cons head earlier =>
            obtain ⟨rfl, htail⟩ := List.cons.inj hsplit
            exact h.met earlier dt later htail

end Life

theorem life_told (p : Parked) (moment : Nat) (requests : List Request) :
    (life p moment requests).Told p moment requests := by
  induction requests generalizing p moment with
  | nil =>
      exact .parked
  | cons request rest ih =>
      cases request with
      | suspend owner c => exact (ih p (moment + 1)).cons nofun
      | poll dt =>
          simp only [life]
          split
          · rename_i hmet
            exact .returned hmet
          · rename_i hunmet
            refine (ih (p.poll dt).1 (moment + 1)).cons ?_
            rintro dt ⟨⟩
            exact Bool.eq_false_iff.2 hunmet
      | cancel owner =>
          simp only [life]
          split
          · rename_i howner
            exact .removed howner
          · exact (ih p (moment + 1)).cons nofun

theorem lives_leftBy (next moment : Nat) (requests : List Request) :
    ∀ l ∈ lives next moment requests, l.LeftBy moment requests := by
  induction requests generalizing next moment with
  | nil => intro l hl; contradiction
  | cons request rest ih =>
      intro l hl
      cases request with
      | suspend owner c =>
          rcases List.mem_cons.1 hl with rfl | hl
          · exact (life_told ..).leftBy.cons
          · exact (ih _ _ l hl).cons
      | poll dt => exact (ih _ _ l hl).cons
      | cancel owner => exact (ih _ _ l hl).cons

/-! ## Lives at a place -/

section AtPlace

variable (place : Place)

theorem atPlace_append (first second : List Life) :
    atPlace place (first ++ second) = atPlace place first ++ atPlace place second := by
  simp [atPlace]

theorem atPlace_cons (l : Life) (rest : List Life) :
    atPlace place (l :: rest) =
      if l.place = place then l.parked :: atPlace place rest else atPlace place rest := by
  by_cases h : l.place = place <;> simp [atPlace, h]

theorem atPlace_eq_nil {place : Place} {ls : List Life} (h : ∀ l ∈ ls, l.place ≠ place) :
    atPlace place ls = [] := by
  simpa [atPlace] using h

end AtPlace

section Answer

variable {moment : Nat} {request : Request} {rest : List Request}

theorem atPlace_map_life (leaves : Parked → Bool) (moved : Parked → Parked) {out : Place}
    (hmoment : out = .returned moment ∨ out = .removed moment)
    (hleaves : ∀ p, leaves p = true → life p moment (request :: rest) = ⟨moved p, out⟩)
    (hstays : ∀ p, leaves p = false →
      life p moment (request :: rest) = life (moved p) (moment + 1) rest) (ps : List Parked)
    (place : Place) :
    atPlace place (ps.map (life · moment (request :: rest))) =
      if place = out then (ps.filter leaves).map moved
      else atPlace place
        (((ps.filter fun p => !leaves p).map moved).map (life · (moment + 1) rest)) := by
  induction ps with
  | nil => split <;> rfl
  | cons p ps ih =>
      rw [List.map_cons, atPlace_cons, ih]
      cases hp : leaves p with
      | true =>
          rw [hleaves p hp, List.filter_cons_of_pos hp, List.filter_cons_of_neg (by simp [hp])]
          by_cases hplace : place = out
          · rw [if_pos hplace.symm, if_pos hplace, if_pos hplace, List.map_cons]
          · rw [if_neg (Ne.symm hplace), if_neg hplace, if_neg hplace]
      | false =>
          have hlater : (life (moved p) (moment + 1) rest).place ≠ out := by
            have hne := (life_told (moved p) (moment + 1) rest).leftBy.place_ne
            rcases hmoment with rfl | rfl
            · exact hne.1
            · exact hne.2
          rw [hstays p hp, List.filter_cons_of_neg (by simp [hp]),
            List.filter_cons_of_pos (by simp [hp])]
          by_cases hplace : place = out
          · rw [if_neg (hplace ▸ hlater), if_pos hplace, if_pos hplace]
          · rw [if_neg hplace, if_neg hplace, List.map_cons, List.map_cons, atPlace_cons]

theorem atPlace_livesFrom_poll (s : Scheduler) (dt : Float32) (place : Place) :
    atPlace place (s.livesFrom moment (.poll dt :: rest)) =
      if place = .returned moment then (s.poll dt).2
      else atPlace place ((s.poll dt).1.livesFrom (moment + 1) rest) := by
  have hmet : ∀ p : Parked, (p.poll dt).2 = true →
      life p moment (.poll dt :: rest) = ⟨(p.poll dt).1, .returned moment⟩ := by
    intro p hp
    simp only [life, hp, if_true]
  have hunmet : ∀ p : Parked, (p.poll dt).2 = false →
      life p moment (.poll dt :: rest) = life (p.poll dt).1 (moment + 1) rest := by
    intro p hp
    simp only [life, hp, Bool.false_eq_true, if_false]
  have hsplit := atPlace_map_life _ _ (.inl rfl) hmet hunmet s.parked place
  simp only [livesFrom, lives, atPlace_append, hsplit, poll, List.filter_map, List.map_map]
  split
  · rename_i hplace
    have hlater := atPlace_eq_nil fun l hl =>
      (lives_leftBy s.nextId (moment + 1) rest l hl).place_ne.1
    rw [hplace, hlater, List.append_nil]
    rfl
  · rfl

theorem atPlace_livesFrom_cancel (s : Scheduler) (owner : ObjectId) (place : Place) :
    atPlace place (s.livesFrom moment (.cancel owner :: rest)) =
      if place = .removed moment then s.parked.filter fun p => p.owner == owner
      else atPlace place ((s.cancel owner).livesFrom (moment + 1) rest) := by
  have hown : ∀ p : Parked, (p.owner == owner) = true →
      life p moment (.cancel owner :: rest) = ⟨id p, .removed moment⟩ := by
    intro p hp
    simp only [life, eq_of_beq hp, if_true, id]
  have hother : ∀ p : Parked, (p.owner == owner) = false →
      life p moment (.cancel owner :: rest) = life (id p) (moment + 1) rest := by
    intro p hp
    simp only [life, ne_of_beq_false hp, if_false, id]
  have hsplit := atPlace_map_life _ _ (.inr rfl) hown hother s.parked place
  simp only [livesFrom, lives, atPlace_append, hsplit, cancel, bne, List.map_id]
  split
  · rename_i hplace
    have hlater := atPlace_eq_nil fun l hl =>
      (lives_leftBy s.nextId (moment + 1) rest l hl).place_ne.2
    rw [hplace, hlater, List.append_nil]
  · rfl

theorem atPlace_livesFrom_cons (s : Scheduler) (request : Request) {place : Place}
    (hreturned : place ≠ .returned moment) (hremoved : place ≠ .removed moment) :
    atPlace place (s.livesFrom moment (request :: rest)) =
      atPlace place ((s.answer request).1.livesFrom (moment + 1) rest) := by
  cases request with
  | suspend owner c => simp [livesFrom, lives, answer, suspend, life, atPlace]
  | poll dt => rw [atPlace_livesFrom_poll, if_neg hreturned, answer]
  | cancel owner => rw [atPlace_livesFrom_cancel, if_neg hremoved, answer]

end Answer

/-! ## Serving -/

theorem serve_parked (s : Scheduler) (moment : Nat) (requests : List Request) :
    (s.serve requests).parked = atPlace .parked (s.livesFrom moment requests) := by
  induction requests generalizing s moment with
  | nil => simp [serve, livesFrom, lives, life, atPlace, List.filter_map, Function.comp_def]
  | cons request rest ih =>
      have hreturned : Place.parked ≠ .returned moment := by simp
      have hremoved : Place.parked ≠ .removed moment := by simp
      rw [atPlace_livesFrom_cons s request hreturned hremoved]
      exact ih _ (moment + 1)

def Request.told? (ls : List Life) (moment : Nat) : Request → Option Reply
  | .suspend _ _ => none
  | .poll _ => some (.ready (atPlace (.returned moment) ls))
  | .cancel _ => some (.cancelled (atPlace (.removed moment) ls).length)

theorem told?_livesFrom_cons (s : Scheduler) (moment i : Nat) (first : Request)
    (rest : List Request) (request : Request) :
    request.told? (s.livesFrom moment (first :: rest)) (moment + (i + 1)) =
      request.told? ((s.answer first).1.livesFrom (moment + 1) rest) (moment + 1 + i) := by
  have hmoment : moment + (i + 1) = moment + 1 + i := by omega
  have hlater : moment + 1 + i ≠ moment := by omega
  cases request with
  | suspend owner c => rfl
  | poll dt =>
      rw [Request.told?, hmoment, atPlace_livesFrom_cons s first (by simpa using hlater) (by simp)]
      rfl
  | cancel owner =>
      rw [Request.told?, hmoment, atPlace_livesFrom_cons s first (by simp) (by simpa using hlater)]
      rfl

theorem replies_told {requests : List Request} {i : Nat} {request : Request} {reply : Reply}
    (h : requests[i]? = some request) (s : Scheduler) (moment : Nat)
    (htold : request.told? (s.livesFrom moment requests) (moment + i) = some reply) :
    (s.replies requests)[i]? = some reply := by
  induction requests generalizing s moment i with
  | nil => contradiction
  | cons first rest ih =>
      cases i with
      | zero =>
          obtain rfl : first = request := Option.some.inj h
          rw [← htold, Nat.add_zero]
          cases first with
          | suspend owner c => contradiction
          | poll dt =>
              rw [Request.told?, atPlace_livesFrom_poll, if_pos rfl]
              rfl
          | cancel owner =>
              rw [Request.told?, atPlace_livesFrom_cancel, if_pos rfl,
                ← List.countP_eq_length_filter]
              rfl
      | succ i =>
          rw [told?_livesFrom_cons] at htold
          exact ih h _ (moment + 1) htold

theorem replies_suspend {requests : List Request} {i : Nat} {owner : ObjectId} {c : Continuation}
    (h : requests[i]? = some (.suspend owner c)) (s : Scheduler) (moment : Nat) :
    ∃ k, (s.replies requests)[i]? = some (.suspended (s.nextId + k)) ∧
      (lives s.nextId moment requests)[k]? =
        some (life ⟨s.nextId + k, owner, c⟩ (moment + i + 1) (requests.drop (i + 1))) := by
  induction requests generalizing s moment i with
  | nil => contradiction
  | cons request rest ih =>
      cases i with
      | zero =>
          obtain rfl : request = .suspend owner c := Option.some.inj h
          exact ⟨0, rfl, rfl⟩
      | succ i =>
          obtain ⟨k, hreply, hlife⟩ := ih h (s.answer request).1 (moment + 1)
          have hmoment : moment + 1 + i + 1 = moment + (i + 1) + 1 := by omega
          rw [hmoment] at hlife
          cases request with
          | suspend owner' c' =>
              have hid : s.nextId + 1 + k = s.nextId + (k + 1) := by omega
              refine ⟨k + 1, ?_, ?_⟩
              · rw [← hid]
                exact hreply
              · rw [← hid]
                exact hlife
          | poll dt => exact ⟨k, hreply, hlife⟩
          | cancel owner' => exact ⟨k, hreply, hlife⟩

theorem lives_id (next moment : Nat) (requests : List Request) :
    (lives next moment requests).map (fun l => l.parked.id) =
      List.range' next (requests.countP Request.isSuspend) := by
  induction requests generalizing next moment with
  | nil => rfl
  | cons request rest ih =>
      cases request with
      | suspend owner c =>
          have hid : (life ⟨next, owner, c⟩ (moment + 1) rest).parked.id = next := by
            rw [(life_told ..).kept]
            rfl
          rw [lives, List.map_cons, hid, ih, List.countP_cons_of_pos rfl, List.range'_succ]
      | poll dt => exact ih next (moment + 1)
      | cancel owner => exact ih next (moment + 1)

end Scheduler

end Nodeflow
