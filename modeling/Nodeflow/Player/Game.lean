import Nodeflow.Player.Asset
import Nodeflow.Player.Config
import Nodeflow.Player.Gameplay
import Nodeflow.Player.Log
import Nodeflow.World.Dispatch

/-!
# The game

The player spawns the configured actors, sends them the spawn events and then, tick by
tick, the tick event, and shows what is printed on the screen log.
-/

namespace Nodeflow

structure Game where
  config : PlayerConfig
  world : World
  actors : List ObjectId
  screen : ScreenLog
  log : Log
  /-- A game that has panicked is over. -/
  panicked : Bool

inductive LoadError where
  | noFile
  | badConfig
  | nativeClass (source : ClassError)
  | asset (source : AssetError)
  deriving DecidableEq

def LoadError.message : LoadError → String
  | .noFile => "the configuration cannot be read"
  | .badConfig => "the configuration cannot be understood"
  | .nativeClass source => source.message
  | .asset source => source.message

def playerTarget : String := "blueprint_player"

def assetTarget : String := "blueprint_player::asset"

def gameplayTarget : String := "blueprint_player::gameplay"

def playerRegistry : Registry :=
  (Registry.empty.registerAll (Builtin.all ++ Gameplay.all)).1

/-! ## Loading -/

def registerNatives (w : World) : List NativeClass → Except ClassError World
  | [] => .ok w
  | c :: rest => do registerNatives (← w.registerNative c.name c.parent) rest

def loadedLine (count : Nat) (directory : String) : LogLine :=
  ⟨.info, playerTarget, "Loaded " ++ toString count ++ " blueprint(s) from " ++ directory⟩

def reportLine (report : String × Diagnostic) : LogLine :=
  ⟨.warn, assetTarget, report.1 ++ ": " ++ report.2.message⟩

def buildLines (count : Nat) : Log :=
  if count = 0 then []
  else
    [⟨.warn, playerTarget,
      toString count ++ " build diagnostic(s); affected events are inert"⟩]

/-- Loads the blueprints of a configuration into a world of their own.  What was logged
comes back also where this fails. -/
def loadWorld (files : FileTree) (config : PlayerConfig) (directory : String) :
    Log × Except LoadError World :=
  match registerNatives (.empty config.runtime playerRegistry) config.natives with
  | .error e => ([], .error (.nativeClass e))
  | .ok w =>
    match Asset.loadDirectory files directory with
    | .error e => ([], .error (.asset e))
    | .ok assets =>
      let r := Asset.registerAll w assets
      let log := loadedLine assets.length directory :: r.reports.map reportLine
      match r.error with
      | some e => (log, .error (.asset e))
      | none => (log ++ buildLines r.reports.length, .ok r.world)

def blueprintDirectory (configPath : String) (config : PlayerConfig) : String :=
  joinPath ((parentPath? configPath).getD ".") config.player.blueprints

def loadConfig (files : FileTree) (path : String) : Except LoadError PlayerConfig :=
  match files.read? path with
  | none => .error .noFile
  | some text =>
    match PlayerConfig.load? text with
    | none => .error .badConfig
    | some config => .ok config

namespace Game

def load (files : FileTree) (configPath : String) : Log × Except LoadError Game :=
  match loadConfig files configPath with
  | .error e => ([], .error e)
  | .ok config =>
    match loadWorld files config (blueprintDirectory configPath config) with
    | (log, .error e) => (log, .error e)
    | (log, .ok world) =>
      (log, .ok ⟨config, world, [], .empty config.screen.ttl config.screen.maxLines, log, false⟩)

/-! ## Events -/

def say (g : Game) (level : LogLevel) (text : String) : Game :=
  { g with log := g.log ++ [⟨level, playerTarget, text⟩] }

def note (g : Game) (notes : List String) : Game :=
  { g with log := g.log ++ notes.map fun text => ⟨.info, gameplayTarget, text⟩ }

def flush (g : Game) (trace : List TraceEvent) : Game :=
  { g with screen := trace.foldl shownBy g.screen }
where
  shownBy (screen : ScreenLog) : TraceEvent → ScreenLog
    | .printed line => screen.push line
    | _ => screen

def warnOf (g : Game) (what : String) : Status → Game
  | .aborted e => g.say .warn (what ++ " aborted: " ++ e.message)
  | _ => g

def dispatch (g : Game) (id : ObjectId) (event : String) (args : EventArgs) : Game :=
  if g.panicked then g
  else
    match g.world.object? id with
    | none => g
    | some o =>
      let (world, result) := g.world.dispatch id o.className event args
      let g := { g with world }
      let what := id.display ++ ": `" ++ event ++ "`"
      match result with
      | .ok report => ((g.note report.notes).warnOf what report.status).flush report.trace
      | .error .panicked => { g with panicked := true }
      | .error e => g.say .error (what ++ " failed: " ++ e.message)

/-! ## Starting -/

def makeActor (classes : ClassTable) (config : ActorConfig) : Object :=
  let o := config.fields.toList.foldl (fun o (name, value) => o.withField name value)
    (Object.actor config.className)
  let o := config.exposes.foldl Object.exposing o
  let natives := (classes.chain config.className).filter fun c => !c.isGenerated
  natives.foldl (fun o c => Gameplay.withBehaviour o c.name) o

def spawn (g : Game) (config : ActorConfig) : Except ClassError Game := do
  let (world, id) ← g.world.spawn (makeActor g.world.classes config)
  let g := { g with world, actors := g.actors ++ [id] }
  let g := g.say .info ("Spawned " ++ config.className ++ " as " ++ id.display)
  pure (g.config.player.spawnEvents.foldl (fun g event => g.dispatch id event ∅) g)

/-- Spawns actors in order.  An actor that cannot be spawned ends the start; those before
it stay. -/
def spawnAll (g : Game) : List ActorConfig → Game × Option ClassError
  | [] => (g, none)
  | config :: rest =>
    match g.spawn config with
    | .error e => (g, some e)
    | .ok g => if g.panicked then (g, none) else g.spawnAll rest

def start (g : Game) : Game × Option ClassError :=
  g.spawnAll g.config.actors

/-! ## Ticks -/

def resumed (g : Game) (r : Resumption) : Game :=
  (g.warnOf (r.owner.display ++ ": resumed `" ++ r.event ++ "`") r.status).flush r.trace

def warnDropped (g : Game) (count : Nat) : Game :=
  if count = 0 then g
  else g.say .warn (toString count ++ " continuation(s) outlived their owner")

/-- A tick: the tick event for every actor, then whatever has waited long enough. -/
def update (g : Game) (dt : Float32) : Game :=
  let args : EventArgs := NameMap.empty.insert "dt" (.float (doubleOfSingle dt))
  let event := g.config.player.tickEvent
  let g := g.actors.foldl (fun g id => g.dispatch id event args) g
  if g.panicked then g
  else
    let (world, report) := g.world.tick dt
    if report.lost.isEmpty then
      let g := ({ g with world } : Game).warnDropped report.dropped
      report.resumed.foldl resumed g
    else { g with world, panicked := true }

def step (g : Game) (dt : Float32) : Game :=
  let g := g.update dt
  { g with screen := g.screen.update dt }

def showScreen (g : Game) (tick : Nat) (shown : String) : Game :=
  let text := g.screen.render
  if text = shown then g
  else if g.screen.isEmpty then g.say .info ("tick " ++ toString tick ++ ": screen cleared")
  else g.say .info ("tick " ++ toString tick ++ ":\n" ++ text)

def runTicks (g : Game) (dt : Float32) (tick : Nat) (shown : String) : Nat → Game
  | 0 => g
  | left + 1 =>
    let g := g.step dt
    if g.panicked then g
    else
      let g := g.showScreen tick shown
      g.runTicks dt (tick + 1) g.screen.render left

def run (g : Game) (ticks : Nat) : Game × Option ClassError :=
  match g.start with
  | (g, some e) => (g, some e)
  | (g, none) =>
    if g.panicked then (g, none)
    else
      let g := g.runTicks g.config.player.dt 0 "" ticks
      if g.panicked then (g, none)
      else
        let pending := toString g.world.scheduler.size
        ( g.say .info
            ("Finished " ++ toString ticks ++ " tick(s), " ++ pending
              ++ " continuation(s) still pending")
        , none )

end Game

end Nodeflow
