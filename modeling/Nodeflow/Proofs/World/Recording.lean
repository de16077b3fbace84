import Nodeflow.Proofs.Run.Recording
import Nodeflow.Proofs.World.Operation

/-!
# Recording only observes

Two worlds that differ in whether they record the nodes that are entered go through the same
history.  Every operation brings about the same in both, and what they answer differs in the
entries of nodes alone.
-/

namespace Nodeflow

/-! ## Answers without entries -/

def DispatchReport.withoutEntries (report : DispatchReport) : DispatchReport :=
  { report with trace := Nodeflow.withoutEntries report.trace }

def Found.withoutEntries (found : Found) : Found :=
  { found with trace := Nodeflow.withoutEntries found.trace }

def Resumption.withoutEntries (r : Resumption) : Resumption :=
  { r with trace := Nodeflow.withoutEntries r.trace }

def World.Turn.withoutEntries : Turn → Turn
  | .resumed r => .resumed r.withoutEntries
  | turn => turn

def TickReport.withoutEntries (report : TickReport) : TickReport :=
  { report with resumed := report.resumed.map Resumption.withoutEntries }

def Answer.withoutEntries : Answer → Answer
  | .dispatched result => .dispatched (result.map DispatchReport.withoutEntries)
  | .ticked report => .ticked report.withoutEntries
  | answer => answer

/-! ## Events -/

theorem Found.report_withoutEntries (found : Found) :
    found.withoutEntries.report = found.report.map DispatchReport.withoutEntries := by
  simp only [report, withoutEntries]
  cases found.ending.status? <;> rfl

theorem offer_unrecorded (registry : Registry) (config : RuntimeConfig) (event : String)
    (args : EventArgs) (entry : Entry) (chain : List ClassInfo) :
    offer registry (config.recording false) event args entry chain =
      (offer registry config event args entry chain).map Found.withoutEntries := by
  induction chain generalizing entry with
  | nil => rfl
  | cons c rest ih =>
      unfold offer
      split
      · simp only
        split
        · rfl
        · rfl
        · exact ih _
      · split
        · exact ih _
        · simp only [runEvent_unrecorded]
          rfl

namespace World

def unrecorded (w : World) : World :=
  { w with config := w.config.recording false }

theorem unrecorded_park (w : World) (owner : ObjectId) (ending : Ending) :
    (w.park owner ending).unrecorded = w.unrecorded.park owner ending := by
  cases ending <;> rfl

theorem dispatch_unrecorded (w : World) (id : ObjectId) (declared event : String)
    (args : EventArgs) :
    w.unrecorded.dispatch id declared event args =
      ((w.dispatch id declared event args).1.unrecorded,
        (w.dispatch id declared event args).2.map DispatchReport.withoutEntries) := by
  have hlive : w.unrecorded.entry? id = w.entry? id := rfl
  have hconcerns : ∀ o, w.unrecorded.concerns o declared event = w.concerns o declared event :=
    fun _ => rfl
  have hoffer : ∀ entry chain, offer w.unrecorded.registry w.unrecorded.config event args entry
      chain = (offer w.registry w.config event args entry chain).map Found.withoutEntries :=
    offer_unrecorded w.registry w.config event args
  have hchain : ∀ name, w.unrecorded.classes.chain name = w.classes.chain name := fun _ => rfl
  unfold dispatch
  simp only [hlive, hconcerns, hoffer, hchain]
  split
  · rfl
  · rename_i entry _
    split
    · cases offer w.registry w.config event args entry
          (w.classes.chain entry.object.className) with
      | error entry' => rfl
      | ok found =>
          simp only [Except.map, unrecorded_park, Found.report_withoutEntries]
          rfl
    · rfl

/-! ## Ticks -/

theorem resumeParked_unrecorded (w : World) (p : Parked) :
    w.unrecorded.resumeParked p =
      ((w.resumeParked p).1.unrecorded,
        (w.resumeParked p).2.withoutEntries) := by
  have hlive : w.unrecorded.entry? p.owner = w.entry? p.owner := rfl
  have hresume : ∀ graph object, resume w.unrecorded.registry w.unrecorded.config graph object
      p.continuation = (resume w.registry w.config graph object p.continuation).withoutEntries :=
    fun graph object => resume_unrecorded w.registry w.config graph object p.continuation
  cases hentry : w.entry? p.owner with
  | none => simp only [resumeParked, hlive, hentry, Turn.withoutEntries]
  | some entry =>
      cases hgraph : entry.graphs.find? p.continuation.className with
      | none => simp only [resumeParked, hlive, hentry, hgraph, Turn.withoutEntries]
      | some graph =>
          rw [resumeParked_of_graph hentry hgraph, resumeParked_of_graph (hlive.trans hentry) hgraph]
          simp only [hresume, unrecorded_park, Outcome.withoutEntries]
          cases (resume w.registry w.config graph entry.object p.continuation).ending.status? <;> rfl

theorem resumeAll_unrecorded (w : World) (ready : List Parked) :
    w.unrecorded.resumeAll ready =
      ((w.resumeAll ready).1.unrecorded, (w.resumeAll ready).2.withoutEntries) := by
  induction ready generalizing w with
  | nil => rfl
  | cons p rest ih =>
      have hsame : (w.unrecorded.resumeParked p).2 = (w.resumeParked p).2.withoutEntries := by
        rw [resumeParked_unrecorded]
      cases hturn : (w.resumeParked p).2 with
      | resumed r =>
          rw [hturn] at hsame
          rw [resumeAll_of_resumed rest hturn, resumeAll_of_resumed rest hsame,
            resumeParked_unrecorded, ih]
          rfl
      | dropped =>
          rw [hturn] at hsame
          rw [resumeAll_of_dropped rest hturn, resumeAll_of_dropped rest hsame,
            resumeParked_unrecorded, ih]
          rfl
      | panicked =>
          rw [hturn] at hsame
          rw [resumeAll_of_panicked rest hturn, resumeAll_of_panicked rest hsame,
            resumeParked_unrecorded]
          rfl

theorem tick_unrecorded (w : World) (dt : Float32) :
    w.unrecorded.tick dt = ((w.tick dt).1.unrecorded, (w.tick dt).2.withoutEntries) :=
  resumeAll_unrecorded { w with scheduler := (w.scheduler.poll dt).1 } (w.scheduler.poll dt).2

/-! ## Histories -/

theorem spawn_unrecorded (w : World) (object : Object) :
    w.unrecorded.spawn object =
      (w.spawn object).map fun result => (result.1.unrecorded, result.2) := by
  have hclasses : w.unrecorded.classes = w.classes := rfl
  unfold spawn
  rw [hclasses]
  split <;> rfl

theorem perform_unrecorded (w : World) (operation : Operation) :
    w.unrecorded.perform operation =
      ((w.perform operation).1.unrecorded, (w.perform operation).2.withoutEntries) := by
  cases operation with
  | registerNative name parent =>
      have hclasses : w.unrecorded.classes = w.classes := rfl
      simp only [perform, registerNative, register, hclasses]
      cases w.classes.insert (.native name parent) <;> rfl
  | registerGenerated name parent d =>
      have hclasses : w.unrecorded.classes = w.classes := rfl
      have hdepth : (w.config.recording false).maxDepth = w.config.maxDepth := rfl
      have hbuild : d.build w.unrecorded.registry w.unrecorded.config =
          d.build w.registry w.config := build_congr hdepth w.registry d
      simp only [perform, registerGenerated, register, hclasses, hbuild]
      cases w.classes.insert (.generated name parent (d.build w.registry w.config)) <;> rfl
  | spawn object =>
      simp only [perform, spawn_unrecorded]
      cases w.spawn object <;> rfl
  | destroy id =>
      have hlive : w.unrecorded.entry? id = w.entry? id := rfl
      simp only [perform, destroy, hlive]
      cases w.entry? id <;> rfl
  | setField id name value =>
      have hlive : w.unrecorded.entry? id = w.entry? id := rfl
      simp only [perform, setField, hlive]
      cases w.entry? id <;> rfl
  | dispatch id declared event args =>
      simp only [perform, dispatch_unrecorded]
      rfl
  | tick dt =>
      simp only [perform, tick_unrecorded]
      rfl

theorem performAll_unrecorded (w : World) (operations : List Operation) :
    w.unrecorded.performAll operations = (w.performAll operations).unrecorded ∧
      w.unrecorded.answers operations =
        (w.answers operations).map Answer.withoutEntries := by
  induction operations generalizing w with
  | nil => exact ⟨rfl, rfl⟩
  | cons operation rest ih =>
      obtain ⟨hworld, hanswers⟩ := ih (w.perform operation).1
      simp only [performAll, answers, perform_unrecorded, hworld, hanswers, List.map_cons,
        and_self]

/--
The same history, with the nodes that are entered recorded and without: after the same
operations both worlds have the same classes, objects, graph variables and parked
continuations, and they have given the same answers, apart from the entries of nodes, which
are left out of the traces where none are recorded.
-/
theorem recording_observes (config : RuntimeConfig) (registry : Registry)
    (operations : List Operation) :
    let recorded := empty (config.recording true) registry
    let unrecorded := empty (config.recording false) registry
    unrecorded.performAll operations =
        { recorded.performAll operations with config := config.recording false } ∧
      unrecorded.answers operations =
        (recorded.answers operations).map Answer.withoutEntries := by
  intro recorded unrecorded
  obtain ⟨hworld, hanswers⟩ := performAll_unrecorded recorded operations
  have hconfig : (recorded.performAll operations).config = config.recording true :=
    (performAll_changes recorded operations).config
  refine ⟨hworld.trans ?_, hanswers⟩
  rw [World.unrecorded, hconfig]
  rfl

end World

end Nodeflow
