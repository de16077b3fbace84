import Nodeflow.Proofs.Number.Packing
import Nodeflow.Proofs.World.Handles
import Nodeflow.Proofs.World.Waits

/-!
# Delays

A delay keeps the time that remains of it as a 32-bit float, which every poll rounds.  So it
ends early or late by up to half a unit in the last place of its seconds for each poll, and a
poll for less than a quarter of that unit takes nothing from it at all.
-/

namespace Nodeflow

structure Forward (dt : Float32) : Prop where
  finite : dt.isFinite = true
  nonneg : 0 ≤ exactSingle dt

def elapsed (dts : List Float32) : ℚ :=
  (dts.map exactSingle).sum

def resolution (s : Float32) : ℚ :=
  spacing .binary32 (exactSingle s)

theorem resolution_pos (s : Float32) : 0 < resolution s :=
  spacing_pos _

theorem elapsed_cons (dt : Float32) (dts : List Float32) :
    elapsed (dt :: dts) = exactSingle dt + elapsed dts :=
  List.sum_cons

@[simp] theorem elapsed_nil : elapsed [] = 0 := rfl

theorem elapsed_nonneg {dts : List Float32} (h : ∀ dt ∈ dts, Forward dt) : 0 ≤ elapsed dts := by
  refine List.sum_nonneg fun q hq => ?_
  obtain ⟨dt, hdt, rfl⟩ := List.mem_map.1 hq
  exact (h dt hdt).nonneg

namespace Condition

def MetBy (c : Condition) (dts : List Float32) : Prop :=
  ∃ earlier dt later, dts = earlier ++ dt :: later ∧ ((c.after earlier).poll dt).2 = true

theorem not_metBy_nil (c : Condition) : ¬ c.MetBy [] := by
  rintro ⟨earlier, dt, later, hsplit, -⟩
  simp at hsplit

theorem metBy_cons {c : Condition} {dt : Float32} {dts : List Float32} :
    c.MetBy (dt :: dts) ↔ (c.poll dt).2 = true ∨ (c.poll dt).1.MetBy dts := by
  constructor
  · rintro ⟨earlier, dt', later, hsplit, hmet⟩
    cases earlier with
    | nil =>
        cases hsplit
        exact .inl hmet
    | cons first earlier =>
        cases hsplit
        exact .inr ⟨earlier, dt', later, rfl, hmet⟩
  · rintro (hmet | ⟨earlier, dt', later, rfl, hmet⟩)
    · exact ⟨[], dt, dts, rfl, hmet⟩
    · exact ⟨dt :: earlier, dt', later, rfl, hmet⟩

/-! ## One poll -/

section Delay

variable {s dt : Float32} {dts : List Float32}

theorem delay_met_iff (hs : s.isFinite = true) (hdt : Forward dt) :
    ((delay s).poll dt).2 = true ↔ exactSingle s ≤ exactSingle dt := by
  rw [← single_sub_le_zero_iff hs hdt.finite]
  exact decide_eq_true_iff

/-- What a poll that does not meet a delay leaves of it. -/
structure Leaves (s dt : Float32) : Prop where
  lt : exactSingle dt < exactSingle s
  nearest : Nearest .binary32 (exactSingle s - exactSingle dt) (s - dt).toModel.unpack

theorem leaves_of_unmet (hs : s.isFinite = true) (hdt : Forward dt)
    (hunmet : ¬ ((delay s).poll dt).2 = true) : Leaves s dt := by
  rw [delay_met_iff hs hdt, not_le] at hunmet
  exact ⟨hunmet, nearest_single_sub hs hdt.finite hdt.nonneg hunmet⟩

namespace Leaves

theorem finite (h : Leaves s dt) : (s - dt).isFinite = true :=
  h.nearest.finite

theorem pos (h : Leaves s dt) : 0 < exactSingle (s - dt) :=
  h.nearest.difference_pos (canonical_single s).dyadic_min (canonical_single dt).dyadic_min h.lt

theorem error (h : Leaves s dt) (hdt : Forward dt) :
    |exactSingle (s - dt) - (exactSingle s - exactSingle dt)| ≤ resolution s / 2 :=
  h.nearest.difference_error hdt.nonneg h.lt

theorem resolution_le (h : Leaves s dt) (hdt : Forward dt) :
    resolution (s - dt) ≤ resolution s :=
  spacing_mono h.pos.ne' (abs_le_abs_of_nonneg h.pos.le
    (h.nearest.difference_le (canonical_single s).dyadic hdt.nonneg h.lt))

end Leaves

/-! ## Many polls -/

def drift (s : Float32) (polls : Nat) : ℚ :=
  (polls - 1 : ℕ) * (resolution s / 2)

theorem drift_nonneg (s : Float32) (polls : Nat) : 0 ≤ drift s polls :=
  mul_nonneg (Nat.cast_nonneg _) (half_pos (resolution_pos s)).le

theorem Leaves.drift_le (h : Leaves s dt) (hdt : Forward dt) {polls : Nat} (hpolls : polls ≠ 0) :
    |exactSingle (s - dt) - (exactSingle s - exactSingle dt)| + drift (s - dt) polls ≤
      drift s (polls + 1) := by
  obtain ⟨polls, rfl⟩ := Nat.exists_eq_succ_of_ne_zero hpolls
  have hpolls : (0 : ℚ) ≤ polls := Nat.cast_nonneg polls
  have hrest := mul_le_mul_of_nonneg_left (h.resolution_le hdt) hpolls
  have hfirst := h.error hdt
  simp only [drift, Nat.succ_eq_add_one, Nat.add_sub_cancel, Nat.cast_add, Nat.cast_one]
  linarith

/-- A delay is over at the latest when the time of the polls exceeds its own by the error that
they may have made. -/
theorem delay_metBy_of_le (hs : s.isFinite = true) (hdts : ∀ dt ∈ dts, Forward dt)
    (hne : dts ≠ []) (h : exactSingle s + drift s dts.length ≤ elapsed dts) :
    (delay s).MetBy dts := by
  induction dts generalizing s with
  | nil => contradiction
  | cons dt dts ih =>
      obtain ⟨hdt, hdts⟩ := List.forall_mem_cons.1 hdts
      rw [metBy_cons, or_iff_not_imp_left]
      intro hunmet
      have hleaves := leaves_of_unmet hs hdt hunmet
      rw [elapsed_cons, List.length_cons] at h
      rcases eq_or_ne dts [] with rfl | hne
      · rw [elapsed_nil, List.length_nil] at h
        linarith [hleaves.lt, drift_nonneg s (0 + 1)]
      · have hdrift := hleaves.drift_le hdt (mt List.length_eq_zero_iff.1 hne)
        refine ih hleaves.finite hdts hne ?_
        linarith [le_abs_self (exactSingle (s - dt) - (exactSingle s - exactSingle dt))]

theorem le_of_delay_metBy (hs : s.isFinite = true) (hdts : ∀ dt ∈ dts, Forward dt)
    (h : (delay s).MetBy dts) : exactSingle s ≤ elapsed dts + drift s dts.length := by
  induction dts generalizing s with
  | nil => exact absurd h (not_metBy_nil _)
  | cons dt dts ih =>
      obtain ⟨hdt, hdts⟩ := List.forall_mem_cons.1 hdts
      rw [elapsed_cons, List.length_cons]
      by_cases hmet : ((delay s).poll dt).2 = true
      · have hle := (delay_met_iff hs hdt).1 hmet
        linarith [elapsed_nonneg hdts, drift_nonneg s (dts.length + 1)]
      · have hleaves := leaves_of_unmet hs hdt hmet
        have hmetBy := (metBy_cons.1 h).resolve_left hmet
        have hne : dts.length ≠ 0 := by
          rintro hnil
          rw [List.length_eq_zero_iff.1 hnil] at hmetBy
          exact not_metBy_nil _ hmetBy
        have hdrift := hleaves.drift_le hdt hne
        have := ih hleaves.finite hdts hmetBy
        linarith [neg_abs_le (exactSingle (s - dt) - (exactSingle s - exactSingle dt))]

theorem delay_metBy_iff (hs : s.isFinite = true) (hdts : ∀ dt ∈ dts, Forward dt) {j : ℤ}
    (hsj : Dyadic j (exactSingle s)) (hdtsj : ∀ dt ∈ dts, Dyadic j (exactSingle dt))
    (hbound : exactSingle s < 2 ^ (24 + j)) :
    (delay s).MetBy dts ↔ dts ≠ [] ∧ exactSingle s ≤ elapsed dts := by
  induction dts generalizing s with
  | nil => simp [not_metBy_nil]
  | cons dt dts ih =>
      obtain ⟨hdt, hdts⟩ := List.forall_mem_cons.1 hdts
      obtain ⟨hdtj, hdtsj⟩ := List.forall_mem_cons.1 hdtsj
      have hrest := elapsed_nonneg hdts
      rw [metBy_cons, elapsed_cons, and_iff_right (List.cons_ne_nil dt dts)]
      by_cases hmet : ((delay s).poll dt).2 = true
      · have hle := (delay_met_iff hs hdt).1 hmet
        exact iff_of_true (.inl hmet) (by linarith)
      · have hleaves := leaves_of_unmet hs hdt hmet
        have hexact : exactSingle (s - dt) = exactSingle s - exactSingle dt :=
          hleaves.nearest.difference_exact (canonical_single s).dyadic_min
            (canonical_single dt).dyadic_min hsj hdtj hleaves.lt
            ((sub_le_self _ hdt.nonneg).trans_lt hbound)
        have hlater := ih hleaves.finite hdts (hexact ▸ hsj.sub hdtj) hdtsj
          (hexact ▸ (sub_le_self _ hdt.nonneg).trans_lt hbound)
        rw [or_iff_right hmet]
        refine hlater.trans ?_
        rw [hexact, sub_le_iff_le_add']
        refine and_iff_right_of_imp ?_
        rintro hle rfl
        rw [elapsed_nil] at hle
        linarith [hleaves.lt]

theorem not_delay_metBy (hs : s.isFinite = true) (hpos : 0 < exactSingle s)
    (hdts : ∀ dt ∈ dts, Forward dt) (hshort : ∀ dt ∈ dts, exactSingle dt < resolution s / 4) :
    ¬ (delay s).MetBy dts := by
  induction dts generalizing s with
  | nil => exact not_metBy_nil _
  | cons dt dts ih =>
      obtain ⟨hdt, hdts⟩ := List.forall_mem_cons.1 hdts
      obtain ⟨hfirst, hshort⟩ := List.forall_mem_cons.1 hshort
      have hunit : resolution s ≤ exactSingle s := (canonical_single s).dyadic.le_of_pos hpos
      have hunmet : ¬ ((delay s).poll dt).2 = true := by
        rw [delay_met_iff hs hdt]
        linarith
      have hleaves := leaves_of_unmet hs hdt hunmet
      -- What is left is the number that was there, so the later polls find the same again.
      have hsame : exactSingle (s - dt) = exactSingle s :=
        hleaves.nearest.difference_absorbed (canonical_single s).dyadic hpos hdt.nonneg hfirst
      rw [metBy_cons, or_iff_right hunmet]
      exact ih hleaves.finite (hsame ▸ hpos) hdts (by rwa [resolution, hsame])

theorem delay_starves (hs : s.isFinite = true) (hpos : 0 < exactSingle s) (hdt : Forward dt)
    (hdtpos : 0 < exactSingle dt) (hshort : exactSingle dt < resolution s / 4) (time : ℚ) :
    ∃ polls, time ≤ elapsed (List.replicate polls dt) ∧
      ¬ (delay s).MetBy (List.replicate polls dt) := by
  obtain ⟨polls, hpolls⟩ := Archimedean.arch time hdtpos
  refine ⟨polls, ?_, ?_⟩
  · rw [elapsed, List.map_replicate, List.sum_replicate]
    exact hpolls
  · refine not_delay_metBy hs hpos ?_ ?_ <;> intro dt' hdt'
    · rwa [List.eq_of_mem_replicate hdt']
    · rwa [List.eq_of_mem_replicate hdt']

/-- Five tenths of a second make a half, and a delay of half a second goes on. -/
example : exactSingle 0.5 ≤ elapsed [0.1, 0.1, 0.1, 0.1, 0.1] ∧
    (((delay 0.5).after [0.1, 0.1, 0.1, 0.1]).poll 0.1).2 = false := by
  decide +kernel

end Delay

end Condition

/-! ## Chains that wait for a delay -/

theorem Condition.MetBy.first {c : Condition} {dts : List Float32} (h : c.MetBy dts) :
    ∃ earlier dt later, dts = earlier ++ dt :: later ∧ ¬ c.MetBy earlier ∧
      ((c.after earlier).poll dt).2 = true := by
  induction dts generalizing c with
  | nil => exact absurd h c.not_metBy_nil
  | cons dt dts ih =>
      by_cases hmet : (c.poll dt).2 = true
      · exact ⟨[], dt, dts, rfl, c.not_metBy_nil, hmet⟩
      · obtain ⟨earlier, dt', later, rfl, hunmet, hlast⟩ :=
          ih ((metBy_cons.1 h).resolve_left hmet)
        exact ⟨dt :: earlier, dt', later, rfl, mt metBy_cons.1 (not_or.2 ⟨hmet, hunmet⟩), hlast⟩

theorem ticks_eq_append_cons {operations : List Operation} {earlier later : List Float32}
    {dt : Float32} (h : ticks operations = earlier ++ dt :: later) :
    ∃ before rest, operations = before ++ .tick dt :: rest ∧ ticks before = earlier := by
  obtain ⟨first, second, rfl, hfirst, hsecond⟩ := List.filterMap_eq_append_iff.1 h
  obtain ⟨skipped, operation, rest, rfl, hskipped, htick, -⟩ :=
    List.filterMap_eq_cons_iff.1 hsecond
  obtain rfl : operation = .tick dt := by
    cases operation <;> simp_all [Operation.dt?]
  refine ⟨first ++ skipped, rest, by simp, ?_⟩
  rw [ticks, List.filterMap_append, hfirst, List.filterMap_eq_nil_iff.2 hskipped,
    List.append_nil]

namespace World

open Condition

variable {w : World} {p : Parked} {operations : List Operation}

theorem Reached.waits (hw : Reached w) (hp : p ∈ w.scheduler.parked)
    (hdestroy : .destroy p.owner ∉ operations)
    (hunmet : ¬ p.continuation.condition.MetBy (ticks operations)) :
    p.after (ticks operations) ∈ (w.performAll operations).scheduler.parked ∧
      ∀ more, w.sequel (some p.id) (operations ++ more) =
        (w.performAll operations).sequel (some p.id) more :=
  stays hw hp hdestroy fun earlier dt later hsplit =>
    Bool.eq_false_iff.2 fun hmet => hunmet ⟨earlier, dt, later, hsplit, hmet⟩

theorem Reached.goesOn (hw : Reached w) (hp : p ∈ w.scheduler.parked)
    (hdestroy : .destroy p.owner ∉ operations)
    (hslots : (w.performAll operations).slots.length ≤ UInt32.size)
    (hkept : ∀ answer ∈ w.answers operations, ∀ q ∈ answer.lost, q.id ≠ p.id)
    (hmet : p.continuation.condition.MetBy (ticks operations)) :
    ∃ before dt rest leg, operations = before ++ .tick dt :: rest ∧
      w.sequel (some p.id) (before ++ [.tick dt]) = [leg] ∧
      leg.resumption p.owner p.continuation.className p.continuation.frame.event ∈
        ((w.performAll before).tick dt).2.resumed := by
  obtain ⟨earlier, dt, later, hticks, hunmet, hlast⟩ := hmet.first
  obtain ⟨before, rest, rfl, rfl⟩ := ticks_eq_append_cons hticks
  obtain ⟨hparked, hsequel⟩ := hw.waits hp (fun h => hdestroy (List.mem_append_left _ h)) hunmet
  have hroom : (w.performAll before).slots.length ≤ UInt32.size := by
    rw [performAll_append] at hslots
    exact (performAll_changes _ _).length_slots_le.trans hslots
  have hkept : ∀ q ∈ ((w.performAll before).tick dt).2.lost, q.id ≠ p.id := by
    rw [answers_append] at hkept
    exact hkept _ (List.mem_append_right _ (List.mem_cons_self ..))
  obtain ⟨leg, hleg, hresumed, -⟩ :=
    resumes (hw.changes (performAll_changes w before)) hroom hparked hlast hkept
  exact ⟨before, dt, rest, leg, rfl, (hsequel _).trans hleg, hresumed⟩

/-- A chain goes on when the ticks have used up its delay, but for the error of as many polls,
whatever else is done, unless its owner is taken out or a panic loses it. -/
def WaitsAbout (w : World) (p : Parked) (s : Float32) : Prop :=
  ∀ operations, .destroy p.owner ∉ operations → (∀ dt ∈ ticks operations, Forward dt) →
    (elapsed (ticks operations) + drift s (ticks operations).length < exactSingle s →
      p.after (ticks operations) ∈ (w.performAll operations).scheduler.parked ∧
      w.sequel (some p.id) operations = []) ∧
    (ticks operations ≠ [] → (w.performAll operations).slots.length ≤ UInt32.size →
      (∀ answer ∈ w.answers operations, ∀ q ∈ answer.lost, q.id ≠ p.id) →
      exactSingle s + drift s (ticks operations).length ≤ elapsed (ticks operations) →
      ∃ before dt rest leg, operations = before ++ .tick dt :: rest ∧
        w.sequel (some p.id) (before ++ [.tick dt]) = [leg] ∧
        leg.resumption p.owner p.continuation.className p.continuation.frame.event ∈
          ((w.performAll before).tick dt).2.resumed)

theorem Reached.waitsAbout (hw : Reached w) (hp : p ∈ w.scheduler.parked) {s : Float32}
    (hcondition : p.continuation.condition = .delay s) (hs : s.isFinite = true) :
    w.WaitsAbout p s := by
  intro operations hdestroy hforward
  refine ⟨fun hearly => ?_, fun hne hslots hkept hlate => ?_⟩
  · have hunmet : ¬ p.continuation.condition.MetBy (ticks operations) := by
      rw [hcondition]
      intro hmet
      exact (le_of_delay_metBy hs hforward hmet).not_gt hearly
    obtain ⟨hparked, hsequel⟩ := hw.waits hp hdestroy hunmet
    have hnone := hsequel []
    rw [List.append_nil] at hnone
    exact ⟨hparked, hnone⟩
  · refine hw.goesOn hp hdestroy hslots hkept ?_
    rw [hcondition]
    exact delay_metBy_of_le hs hforward hne hlate

theorem delay_waits (hw : w.Reachable) (operation : Operation) :
    let after := (w.perform operation).1
    ∀ p ∈ after.scheduler.since w.scheduler.nextId,
      ∃ u call invocation, Changes w u ∧ u.CutBy p call invocation ∧
        (call.capability = Builtin.delay → ∃ seconds : Float,
          call.context.args = [("seconds", .float seconds)] ∧
          ((singleOfDouble seconds).isFinite = true →
            after.WaitsAbout p (singleOfDouble seconds))) := by
  intro after p hp
  obtain ⟨hparked, hnew⟩ := Scheduler.mem_since.1 hp
  have hreached : Reached after := hw.reached.changes (perform_changes w operation)
  obtain ⟨u, hchanges, hleft⟩ := perform_parks hw.reached hparked hnew
  obtain ⟨call, invocation, hcut⟩ := hleft.cut (hw.reached.changes hchanges)
  refine ⟨u, call, invocation, hchanges, hcut, fun hcall => ?_⟩
  have hresult := hcut.cut.answers
  rw [CallSite.result, hcall] at hresult
  obtain ⟨seconds, hargs, rfl⟩ := Builtin.delay_ok (hcall ▸ hcut.asDeclared) hresult
  have hcondition := Option.some.inj hcut.cut.waits
  exact ⟨seconds, hargs, hreached.waitsAbout hparked hcondition.symm⟩

end World

end Nodeflow
