import Mathlib.Data.List.DropRight
import Nodeflow.Player.ScreenLog
import Nodeflow.Proofs.Number.Subtraction

/-!
# What the screen shows

Every line is shown for the same time, and steps of time shorten what is left of all lines
alike, so an older line never outlasts a newer one.  Taking expired lines from the front
therefore takes all of them, and neither that nor the lines that made room are missed: the screen
shows the end of a log that keeps every line until its own time is up.
-/

namespace Nodeflow

namespace ScreenLog

/-! ## Ends of lists -/

section Ends

variable {α : Type} {p : α → Bool} {l : List α}

theorem dropWhile_eq_filter (h : l.Pairwise fun a b => p b = true → p a = true) :
    l.dropWhile p = l.filter fun a => !p a := by
  induction l with
  | nil => rfl
  | cons a l ih =>
      obtain ⟨hfirst, hrest⟩ := List.pairwise_cons.1 h
      cases ha : p a with
      | true =>
          rw [List.dropWhile_cons_of_pos ha, ih hrest, List.filter_cons_of_neg (by simp [ha])]
      | false =>
          have hall : ∀ b ∈ a :: l, (!p b) = true := by
            intro b hb
            rcases List.mem_cons.1 hb with rfl | hb
            · simp [ha]
            · have := hfirst b hb
              grind
          rw [List.dropWhile_cons_of_neg (by simp [ha]), List.filter_eq_self.2 hall]

theorem filter_rtake_append {before after : List α} (hbefore : ∀ a ∈ before, p a = true)
    (hafter : ∀ a ∈ after, (!p a) = true) (n : Nat) :
    ((before ++ after).rtake n).filter (fun a => !p a) = after.rtake n := by
  have hlength : before.length + after.length - n - before.length = after.length - n := by omega
  have hfront : (before.drop (before.length + after.length - n)).filter (fun a => !p a) = [] :=
    List.filter_eq_nil_iff.2 fun a ha => by simp [hbefore a (List.mem_of_mem_drop ha)]
  have hback : (after.drop (after.length - n)).filter (fun a => !p a) =
      after.drop (after.length - n) :=
    List.filter_eq_self.2 fun a ha => hafter a (List.mem_of_mem_drop ha)
  rw [List.rtake, List.length_append, List.drop_append, List.filter_append, hlength, hfront, hback]
  rfl

theorem filter_rtake (h : l.Pairwise fun a b => p b = true → p a = true) (n : Nat) :
    (l.rtake n).filter (fun a => !p a) = (l.filter fun a => !p a).rtake n := by
  have hsplit : l.takeWhile p ++ l.filter (fun a => !p a) = l := by
    rw [← dropWhile_eq_filter h, List.takeWhile_append_dropWhile]
  have hbefore : ∀ a ∈ l.takeWhile p, p a = true := fun a ha => List.mem_takeWhile_imp ha
  have hafter : ∀ a ∈ l.filter (fun a => !p a), (!p a) = true :=
    fun a ha => (List.mem_filter.1 ha).2
  have hfilter := filter_rtake_append hbefore hafter n
  rwa [hsplit] at hfilter

theorem rtake_append_singleton (n : Nat) (l : List α) (a : α) :
    (l.rtake n ++ [a]).rtake n = (l ++ [a]).rtake n := by
  simp only [List.rtake, List.length_append, List.length_drop, List.drop_append, List.drop_drop]
  congr 2 <;> omega

end Ends

/-! ## Logs over time -/

inductive Step where
  | push (text : String)
  | update (dt : Float32)

def Step.IsForward : Step → Prop
  | .push _ => True
  | .update dt => 0 ≤ dt

instance : DecidablePred Step.IsForward
  | .push _ => .isTrue trivial
  | .update dt => inferInstanceAs (Decidable (0 ≤ dt))

def step (s : ScreenLog) : Step → ScreenLog
  | .push text => s.push text
  | .update dt => s.update dt

def run (s : ScreenLog) (steps : List Step) : ScreenLog :=
  steps.foldl step s

/-- A log that makes no room: it keeps every line until the time of that line is up. -/
def keep (ttl : Float32) (lines : List ScreenLine) : Step → List ScreenLine
  | .push text => lines ++ [⟨text, ttl⟩]
  | .update dt => (lines.map (ScreenLine.age · dt)).filter fun line => !ScreenLine.expired line

def kept (ttl : Float32) (steps : List Step) : List ScreenLine :=
  steps.foldl (keep ttl) []

structure InTurn (ttl : Float32) (lines : List ScreenLine) : Prop where
  ordered : lines.Pairwise fun older newer =>
    extendedSingle older.remaining ≤ extendedSingle newer.remaining
  bounded : ∀ line ∈ lines, extendedSingle line.remaining ≤ extendedSingle ttl

theorem expired_iff {line : ScreenLine} :
    ScreenLine.expired line = true ↔ extendedSingle line.remaining ≤ 0 := by
  rw [ScreenLine.expired, decide_eq_true_iff, single_le_zero_iff_extended]

namespace InTurn

variable {ttl dt : Float32} {lines : List ScreenLine}

theorem nil : InTurn ttl [] :=
  ⟨.nil, nofun⟩

theorem expired (h : InTurn ttl lines) : lines.Pairwise fun older newer =>
    ScreenLine.expired newer = true → ScreenLine.expired older = true :=
  h.ordered.imp fun hle hnewer => expired_iff.2 (hle.trans (expired_iff.1 hnewer))

theorem sublist {lines' : List ScreenLine} (h : InTurn ttl lines) (hsub : lines'.Sublist lines) :
    InTurn ttl lines' where
  ordered := h.ordered.sublist hsub
  bounded := fun line hline => h.bounded line (hsub.subset hline)

theorem push (h : InTurn ttl lines) (text : String) : InTurn ttl (lines ++ [⟨text, ttl⟩]) where
  ordered := by
    refine List.pairwise_append.2 ⟨h.ordered, List.pairwise_singleton _ _, ?_⟩
    intro line hline new hnew
    rw [List.mem_singleton.1 hnew]
    exact h.bounded line hline
  bounded := by
    intro line hline
    rcases List.mem_append.1 hline with hline | hline
    · exact h.bounded line hline
    · rw [List.mem_singleton.1 hline]

theorem age (h : InTurn ttl lines) (hdt : 0 ≤ dt) :
    InTurn ttl (lines.map (ScreenLine.age · dt)) where
  ordered := List.pairwise_map.2 (h.ordered.imp fun hle => single_sub_mono hle)
  bounded := by
    intro aged haged
    obtain ⟨line, hline, rfl⟩ := List.mem_map.1 haged
    exact (single_sub_le hdt).trans (h.bounded line hline)

end InTurn

/-! ## The screen shows the end of what is kept -/

/-- A log has the end of some lines, which are in turn. -/
structure EndOf (full : List ScreenLine) (s : ScreenLog) : Prop where
  lines : s.lines = full.rtake s.maxLines
  turn : InTurn s.ttl full

namespace EndOf

variable {s : ScreenLog} {full : List ScreenLine} {dt : Float32}

theorem push (h : EndOf full s) (text : String) :
    EndOf (full ++ [⟨text, s.ttl⟩]) (s.push text) where
  lines := by
    have hpush : (s.push text).lines = List.rtake (s.lines ++ [⟨text, s.ttl⟩]) s.maxLines := rfl
    rw [hpush, h.lines]
    exact rtake_append_singleton s.maxLines full _
  turn := h.turn.push text

theorem update (h : EndOf full s) (hdt : 0 ≤ dt) :
    EndOf (keep s.ttl full (.update dt)) (s.update dt) where
  lines := by
    have hexpired := (h.turn.age hdt).expired
    have haged : s.lines.map (ScreenLine.age · dt) =
        (full.map (ScreenLine.age · dt)).rtake s.maxLines := by
      rw [h.lines, List.rtake, List.rtake, List.map_drop, List.length_map]
    calc (s.update dt).lines
        = ((full.map (ScreenLine.age · dt)).rtake s.maxLines).dropWhile ScreenLine.expired := by
          rw [← haged]
          rfl
      _ = ((full.map (ScreenLine.age · dt)).rtake s.maxLines).filter
            fun line => !ScreenLine.expired line :=
          dropWhile_eq_filter (hexpired.sublist (List.drop_sublist _ _))
      _ = (keep s.ttl full (.update dt)).rtake s.maxLines :=
          filter_rtake hexpired s.maxLines
  turn := (h.turn.age hdt).sublist List.filter_sublist

theorem run (h : EndOf full s) (steps : List Step) (hforward : ∀ step ∈ steps, step.IsForward) :
    EndOf (steps.foldl (keep s.ttl) full) (s.run steps) := by
  induction steps generalizing s full with
  | nil => exact h
  | cons step steps ih =>
      obtain ⟨hstep, hsteps⟩ := List.forall_mem_cons.1 hforward
      cases step with
      | push text => exact ih (h.push text) hsteps
      | update dt => exact ih (h.update hstep) hsteps

theorem expired (h : EndOf full s) : s.lines.Pairwise fun older newer =>
    ScreenLine.expired newer = true → ScreenLine.expired older = true := by
  rw [h.lines]
  exact (h.turn.sublist (List.drop_sublist _ _)).expired

end EndOf

theorem run_maxLines (s : ScreenLog) (steps : List Step) : (s.run steps).maxLines = s.maxLines := by
  induction steps generalizing s with
  | nil => rfl
  | cons step steps ih =>
      have hstep : (s.step step).maxLines = s.maxLines := by cases step <;> rfl
      exact (ih (s.step step)).trans hstep

/--
However lines and steps of time follow one another, the screen shows the last of the lines whose
time is not up, as many as fit.  No line that is expired stands behind one that is not, and an
update leaves none at all.
-/
theorem shows_newest (ttl : Float32) (maxLines : Nat) (steps : List Step)
    (hforward : ∀ step ∈ steps, step.IsForward) :
    let s := (empty ttl maxLines).run steps
    s.lines = (kept ttl steps).rtake maxLines ∧
    (s.lines.Pairwise fun older newer =>
      ScreenLine.expired newer = true → ScreenLine.expired older = true) ∧
    ∀ dt, 0 ≤ dt → ∀ line ∈ (s.update dt).lines, ScreenLine.expired line = false := by
  intro s
  have hstart : EndOf [] (empty ttl maxLines) := ⟨(List.rtake_nil maxLines).symm, .nil⟩
  have hend : EndOf (kept ttl steps) s := hstart.run steps hforward
  refine ⟨?_, hend.expired, fun dt hdt line hline => ?_⟩
  · rw [hend.lines, run_maxLines]
    rfl
  · rw [(hend.update hdt).lines] at hline
    have hkept := List.mem_of_mem_drop hline
    simpa using (List.mem_filter.1 hkept).2

theorem shows_newest_of_four :
    let steps := [.push "a", .update 0.5, .push "b", .push "c", .update 0.5, .push "d"]
    let s := (empty 1 2).run steps
    (∀ step ∈ steps, step.IsForward) ∧ s.lines = (kept 1 steps).rtake 2 ∧
      s.texts = ["c", "d"] ∧ (kept 1 steps).map ScreenLine.text = ["b", "c", "d"] := by
  intro steps s
  have hforward : ∀ step ∈ steps, step.IsForward := by decide +kernel
  refine ⟨hforward, (shows_newest 1 2 steps hforward).1, ?_, ?_⟩
  · decide +kernel
  · decide +kernel

/-! ## What an update tells -/

theorem intercalate_append_eq_iff {before after : List String} :
    "\n".intercalate (before ++ after) = "\n".intercalate after ↔
      before = [] ∨ before = [""] ∧ after = [] := by
  rcases eq_or_ne before [] with rfl | hbefore
  · simp
  rcases eq_or_ne after [] with rfl | hafter
  · cases before with
    | nil => contradiction
    | cons text rest =>
        cases rest with
        | nil => simp
        | cons next rest => simp
  · rw [String.intercalate_append_of_ne_nil hbefore hafter]
    constructor
    · intro heq
      have hlength := congrArg String.length heq
      have hbreak : "\n".length = 1 := rfl
      rw [String.length_append, String.length_append, hbreak] at hlength
      omega
    · simp [hbefore, hafter]

variable (s : ScreenLog) (dt : Float32)

def dropped : List String :=
  ((s.lines.map (ScreenLine.age · dt)).takeWhile ScreenLine.expired).map ScreenLine.text

theorem dropped_append_texts : s.dropped dt ++ (s.update dt).texts = s.texts := by
  have haged : (s.lines.map (ScreenLine.age · dt)).map ScreenLine.text = s.texts := by
    rw [List.map_map]
    rfl
  rw [dropped, texts, update, ← List.map_append, List.takeWhile_append_dropWhile, haged]

theorem changes_iff_dropped : s.changes dt = true ↔ s.dropped dt ≠ [] := by
  have hlength := congrArg List.length (s.dropped_append_texts dt)
  rw [List.length_append, texts, texts, List.length_map, List.length_map] at hlength
  rw [changes, bne_iff_ne, Ne, Ne, ← List.length_eq_zero_iff]
  omega

/-- An update that drops lines changes the text on the screen, unless what it drops is a single
line without text and nothing else is there. -/
theorem changes_iff : s.changes dt = true ↔
    (s.update dt).render ≠ s.render ∨ s.texts = [""] ∧ (s.update dt).texts = [] := by
  have hrender : (s.update dt).render = s.render ↔
      s.dropped dt = [] ∨ s.dropped dt = [""] ∧ (s.update dt).texts = [] := by
    rw [render, render, ← s.dropped_append_texts dt, eq_comm]
    exact intercalate_append_eq_iff
  have hblank : s.texts = [""] ∧ (s.update dt).texts = [] ↔
      s.dropped dt = [""] ∧ (s.update dt).texts = [] := by
    rw [← s.dropped_append_texts dt]
    refine and_congr_left fun hnone => ?_
    rw [hnone, List.append_nil]
  rw [changes_iff_dropped, Ne, Ne, hrender, hblank]
  by_cases hdropped : s.dropped dt = []
  · simp [hdropped]
  · tauto

example :
    let s := (empty 2 6).push ""
    s.changes 2 = true ∧ (s.update 2).render = s.render := by
  decide +kernel

end ScreenLog

end Nodeflow
