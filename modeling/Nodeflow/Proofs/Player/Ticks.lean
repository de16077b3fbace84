import Nodeflow.Player.Game
import Nodeflow.Proofs.Player.Registration
import Nodeflow.Proofs.World.Orphans

/-!
# Ticks of the game

A tick sends its event to the actors and polls afterwards, so what the runs of the event have
parked is polled in the tick in which they began, like all that waited before.  Only what the
resumptions of a tick park waits for the next one.  A game that panics is over.
-/

namespace Nodeflow

namespace Asset

theorem registerEach_changes (w : World) (round : List Asset) :
    World.Changes w (registerEach w round).world := by
  induction round generalizing w with
  | nil => exact .refl
  | cons a rest ih =>
      unfold registerEach
      split
      · exact .refl
      · rename_i w' _ hone
        exact .head (World.registerGenerated_change hone) (ih w')

theorem registerAll_changes (w : World) (assets : List Asset) :
    World.Changes w (registerAll w assets).world := by
  fun_induction registerAll w assets with
  | case1 => exact .refl
  | case2 => exact .refl
  | case3 w first rest ready _ round => exact registerEach_changes w ready
  | case4 w first rest ready waiting _ round _ later ih =>
      exact (registerEach_changes w ready).trans ih

end Asset

theorem registerNatives_changes {w w' : World} {natives : List NativeClass}
    (h : registerNatives w natives = .ok w') : World.Changes w w' := by
  induction natives generalizing w with
  | nil =>
      cases h
      exact .refl
  | cons c rest ih =>
      unfold registerNatives at h
      cases hone : w.registerNative c.name c.parent with
      | error e => simp [hone, bind, Except.bind] at h
      | ok next =>
          simp only [hone, bind, Except.bind] at h
          exact .head (World.registerNative_change hone) (ih h)

theorem loadWorld_reached {files : FileTree} {config : PlayerConfig} {directory : String}
    {w : World} (h : (loadWorld files config directory).2 = .ok w) : w.Reached := by
  unfold loadWorld at h
  split at h
  · contradiction
  · rename_i natives hnatives
    split at h
    · contradiction
    · rename_i assets _
      simp only at h
      split at h
      · contradiction
      · cases h
        exact ⟨_, _, (registerNatives_changes hnatives).trans (Asset.registerAll_changes ..)⟩

namespace Game

variable {g g' : Game}

theorem load_reached {files : FileTree} {configPath : String}
    (h : (load files configPath).2 = .ok g) : g.world.Reached := by
  unfold load at h
  split at h
  · contradiction
  · split at h
    · contradiction
    · rename_i hworld
      cases h
      exact loadWorld_reached (congrArg Prod.snd hworld)

/-! ## What leaves the world alone -/

@[simp] theorem world_warnOf (g : Game) (what : String) (status : Status) :
    (g.warnOf what status).world = g.world := by
  cases status <;> rfl

@[simp] theorem world_warnDropped (g : Game) (count : Nat) :
    (g.warnDropped count).world = g.world := by
  unfold warnDropped
  split <;> rfl

theorem world_foldl_resumed (g : Game) (resumptions : List Resumption) :
    (resumptions.foldl resumed g).world = g.world := by
  induction resumptions generalizing g with
  | nil => rfl
  | cons r rest ih => exact (ih _).trans (world_warnOf ..)

@[simp] theorem world_showScreen (g : Game) (tick : Nat) (shown : String) :
    (g.showScreen tick shown).world = g.world := by
  unfold showScreen
  simp only
  split
  · rfl
  · split <;> rfl

/-! ## Sending events -/

theorem world_dispatch (g : Game) (id : ObjectId) (event : String) (args : EventArgs) :
    (g.dispatch id event args).world = g.world ∨ ∃ declared,
      (g.dispatch id event args).world = (g.world.dispatch id declared event args).1 := by
  unfold dispatch
  split
  · exact .inl rfl
  · split
    · exact .inl rfl
    · rename_i o _
      refine .inr ⟨o.className, ?_⟩
      simp only
      split
      · exact world_warnOf ..
      · rfl
      · rfl

theorem foldl_dispatch {motive : World → World → Prop} (refl : ∀ w, motive w w)
    (trans : ∀ {w w' w''}, motive w w' → motive w' w'' → motive w w'')
    (dispatch : ∀ w id declared event args, motive w (World.dispatch w id declared event args).1)
    {α : Type} (id : α → ObjectId) (event : α → String) (args : EventArgs) (g : Game)
    (series : List α) :
    motive g.world (series.foldl (fun g x => g.dispatch (id x) (event x) args) g).world := by
  induction series generalizing g with
  | nil => exact refl _
  | cons x rest ih =>
      refine trans ?_ (ih _)
      rcases g.world_dispatch (id x) (event x) args with h | ⟨declared, h⟩
      · exact h ▸ refl _
      · exact h ▸ dispatch ..

def sent (g : Game) (dt : Float32) : Game :=
  let args : EventArgs := NameMap.empty.insert "dt" (.float (doubleOfSingle dt))
  g.actors.foldl (fun g' id => g'.dispatch id g.config.player.tickEvent args) g

theorem sent_changes (g : Game) (dt : Float32) : World.Changes g.world (g.sent dt).world :=
  foldl_dispatch (fun _ => .refl) .trans World.dispatch_changes id
    (fun _ => g.config.player.tickEvent) _ g g.actors

theorem sent_gains (g : Game) (dt : Float32) :
    g.world.scheduler.Gains (g.sent dt).world.scheduler :=
  foldl_dispatch (motive := fun w w' => w.scheduler.Gains w'.scheduler) (fun _ => .refl _)
    .trans World.dispatch_gains id (fun _ => g.config.player.tickEvent) _ g g.actors

/-! ## A tick -/

theorem update_eq_sent {g : Game} {dt : Float32} (h : (g.sent dt).panicked = true) :
    g.update dt = g.sent dt :=
  if_pos h

theorem world_update {g : Game} {dt : Float32} (h : (g.sent dt).panicked = false) :
    (g.update dt).world = ((g.sent dt).world.tick dt).1 := by
  have hupdate : g.update dt = _ := if_neg (Bool.eq_false_iff.1 h)
  rw [hupdate]
  dsimp only
  split
  · rw [world_foldl_resumed, world_warnDropped]
    rfl
  · rfl

theorem update_changes (g : Game) (dt : Float32) :
    World.Changes g.world (g.update dt).world := by
  cases hsent : (g.sent dt).panicked with
  | true =>
      rw [update_eq_sent hsent]
      exact g.sent_changes dt
  | false =>
      rw [world_update hsent]
      exact (g.sent_changes dt).trans (World.perform_changes _ (.tick dt))

/-! ## Whole games -/

theorem spawn_changes {config : ActorConfig} (h : g.spawn config = .ok g') :
    World.Changes g.world g'.world := by
  unfold spawn at h
  cases hspawn : g.world.spawn (makeActor g.world.classes config) with
  | error e => simp [hspawn, bind, Except.bind] at h
  | ok spawned =>
      obtain ⟨world, id⟩ := spawned
      simp only [hspawn, bind, Except.bind, pure, Except.pure] at h
      obtain ⟨spawned, rfl, rfl⟩ : ∃ spawned : Game, spawned.world = world ∧
          g' = g.config.player.spawnEvents.foldl (fun g event => g.dispatch id event ∅) spawned :=
        ⟨_, rfl, (Except.ok.inj h).symm⟩
      exact .head (.spawn hspawn) (foldl_dispatch (fun _ => .refl) .trans World.dispatch_changes
        (fun _ => id) (fun event => event) ∅ spawned g.config.player.spawnEvents)

theorem spawnAll_changes (g : Game) (configs : List ActorConfig) :
    World.Changes g.world (g.spawnAll configs).1.world := by
  induction configs generalizing g with
  | nil => exact .refl
  | cons config rest ih =>
      unfold spawnAll
      split
      · exact .refl
      · rename_i g' hspawn
        split
        · exact spawn_changes hspawn
        · exact (spawn_changes hspawn).trans (ih g')

theorem runTicks_changes (g : Game) (dt : Float32) (tick : Nat) (shown : String) (ticks : Nat) :
    World.Changes g.world (g.runTicks dt tick shown ticks).world := by
  induction ticks generalizing g tick shown with
  | zero => exact .refl
  | succ left ih =>
      unfold runTicks
      dsimp only
      split
      · exact g.update_changes dt
      · have hstep : World.Changes g.world ((g.step dt).showScreen tick shown).world := by
          rw [world_showScreen]
          exact g.update_changes dt
        exact hstep.trans (ih _ _ _)

def Playing (g : Game) : Prop :=
  ∃ files configPath loaded dt ticks, (load files configPath).2 = .ok loaded ∧
    g = loaded.start.1.runTicks dt 0 "" ticks

theorem Playing.reached (h : Playing g) : g.world.Reached := by
  obtain ⟨files, configPath, loaded, dt, ticks, hload, rfl⟩ := h
  exact (load_reached hload).changes
    ((loaded.spawnAll_changes _).trans (loaded.start.1.runTicks_changes dt 0 "" ticks))

/--
What becomes of the queue in a tick of the game, unless it panics over the tick event.  The runs
of the event park some continuations behind those that waited before, and the poll of the same
tick moves the conditions of all of them on: one whose condition is met by that leaves the queue
in the tick in which it entered it.  What the resumptions park is there as it was parked, and is
first polled in the tick after.
-/
theorem update_queue (hg : Playing g) {dt : Float32} (hsent : (g.sent dt).panicked = false) :
    let before := g.world.scheduler
    let polled := (g.sent dt).world.scheduler
    let after := (g.update dt).world.scheduler
    ∃ begun resumed : List Parked,
      polled.parked = before.parked ++ begun ∧
      (∀ p ∈ begun, before.nextId ≤ p.id ∧ p.id < polled.nextId) ∧
      after.parked = (polled.poll dt).1.parked ++ resumed ∧
      (∀ p ∈ resumed, polled.nextId ≤ p.id) ∧
      ∀ p ∈ before.parked ++ begun,
        if (p.poll dt).2 then ∀ q ∈ after.parked, q.id ≠ p.id
        else (p.poll dt).1 ∈ after.parked := by
  intro before polled after
  have hnumbered : polled.Numbered := (hg.reached.changes (g.sent_changes dt)).numbered
  obtain ⟨begun, hbegun, hnew⟩ := (g.sent_gains dt).parked
  obtain ⟨resumed, hqueue, hnewer⟩ := (g.sent dt).world.tick_queue dt
  rw [← world_update hsent] at hqueue
  refine ⟨begun, resumed, hbegun, fun p hp => ⟨hnew p hp, ?_⟩, hqueue, hnewer, fun p hp => ?_⟩
  · exact hnumbered.below p (hbegun ▸ List.mem_append_right _ hp)
  · rw [← hbegun] at hp
    split
    · rename_i hmet
      intro q hq
      rcases List.mem_append.1 (hqueue ▸ hq) with hq | hq
      · exact hnumbered.ne_of_met hp hmet q hq
      · exact (Nat.lt_of_lt_of_le (hnumbered.below p hp) (hnewer q hq)).ne'
    · rename_i hunmet
      exact hqueue ▸ List.mem_append_left _ (Scheduler.mem_poll_of_not_met hp hunmet)

/-- An actor that waits for the next tick, twice, whenever it is ticked: in its first tick the
first wait begins and is over, and the second one begins. -/
example (config : PlayerConfig) (screen : ScreenLog) (dt : Float32) :
    let event := config.player.tickEvent
    let waitTwice : EventGraph :=
      ⟨[⟨"NextTick", [], .origin⟩, ⟨"NextTick", [], .origin⟩], [⟨0, 1, 0⟩]⟩
    let w := (World.empty .default (Registry.empty.registerAll [Builtin.nextTick]).1).performAll
      [.registerGenerated "Lantern" none
          ⟨.ofList [(event, waitTwice)], .ofList [(event, some 0)], ∅⟩,
        .spawn (.actor "Lantern")]
    let g : Game := ⟨config, w, [⟨0, 0⟩], screen, [], false⟩
    let after := (g.update dt).world.scheduler
    after.nextId = 2 ∧ after.parked.map Parked.id = [1] := by
  intro event waitTwice w g after
  have hsent : (g.sent dt).panicked = false ∧
      ((g.sent dt).world.tick dt).1.scheduler.nextId = 2 ∧
      ((g.sent dt).world.tick dt).1.scheduler.parked.map Parked.id = [1] := by
    simp only [g, w, waitTwice, event, sent]
    generalize config.player.tickEvent = event
    -- Nothing is asked of the seconds the event carries, and evaluating them takes long.
    generalize doubleOfSingle dt = seconds
    cbv
  rw [← world_update hsent.1] at hsent
  exact hsent.2

end Game

end Nodeflow
