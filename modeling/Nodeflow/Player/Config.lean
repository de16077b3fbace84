import Nodeflow.Config
import Nodeflow.Player.ScreenLog
import Nodeflow.Toml.Reader

/-!
# The player's configuration

A TOML file that names the native classes, the actors to spawn and the events to send.
Everything but the name of a class has a default, and unknown keys are ignored.
-/

namespace Nodeflow

structure NativeClass where
  name : String
  parent : Option String
  deriving DecidableEq, Repr

structure ActorConfig where
  className : String
  fields : NameMap Value
  exposes : List String

structure PlayerInfo where
  ticks : Nat
  tickRate : Float32
  blueprints : String
  spawnEvents : List String
  tickEvent : String

structure ScreenConfig where
  ttl : Float32
  maxLines : Nat

structure PlayerConfig where
  player : PlayerInfo
  runtime : RuntimeConfig
  screen : ScreenConfig
  natives : List NativeClass
  actors : List ActorConfig

namespace Data

/-- A list written in the place of a record, without the items beyond its fields. -/
def clipped (size : Nat) : Data → Data
  | .list items => .list (items.take size)
  | d => d

def texts? (d : Data) : Option (List String) :=
  d.list?.bind (·.mapM Data.text?)

end Data

namespace PlayerInfo

def default : PlayerInfo where
  ticks := 120
  tickRate := 60
  blueprints := "blueprints"
  spawnEvents := ["onConstruct", "onBeginPlay"]
  tickEvent := "onTick"

/-- The seconds of a tick; a rate that is not positive stops the time. -/
def dt (p : PlayerInfo) : Float32 :=
  if 0 < p.tickRate then 1 / p.tickRate else 0

def ofData? (d : Data) : Option PlayerInfo := do
  match ← (d.clipped 5).record?
    ["ticks", "tick_rate", "blueprints", "spawn_events", "tick_event"] with
  | [ticks, tickRate, blueprints, spawnEvents, tickEvent] =>
    let ticks ← Data.fieldOr default.ticks (Data.natBelow? UInt32.size) ticks
    let tickRate ← Data.fieldOr default.tickRate Data.single? tickRate
    let blueprints ← Data.fieldOr default.blueprints Data.text? blueprints
    let spawnEvents ← Data.fieldOr default.spawnEvents Data.texts? spawnEvents
    let tickEvent ← Data.fieldOr default.tickEvent Data.text? tickEvent
    some ⟨ticks, tickRate, blueprints, spawnEvents, tickEvent⟩
  | _ => none

end PlayerInfo

namespace ScreenConfig

def default : ScreenConfig := ⟨ScreenLog.defaultTtl, ScreenLog.defaultMaxLines⟩

def ofData? (d : Data) : Option ScreenConfig := do
  match ← (d.clipped 2).record? ["ttl", "max_lines"] with
  | [ttl, maxLines] =>
    let ttl ← Data.fieldOr default.ttl Data.single? ttl
    let maxLines ← Data.fieldOr default.maxLines Data.index? maxLines
    some ⟨ttl, maxLines⟩
  | _ => none

end ScreenConfig

def NativeClass.ofData? (d : Data) : Option NativeClass := do
  match ← (d.clipped 2).record? ["name", "parent"], d with
  | [some _, none], .list _ => none
  | [some name, parent], _ =>
    let name ← name.text?
    let parent ← Data.fieldOr none (Data.nullable? Data.text?) parent
    some ⟨name, parent⟩
  | _, _ => none

def ActorConfig.ofData? (d : Data) : Option ActorConfig := do
  match ← (d.clipped 3).record? ["class", "fields", "exposes"] with
  | [some className, fields, exposes] =>
    let className ← className.text?
    let fields ← Data.fieldOr ∅ (Data.map? Value.ofData?) fields
    let exposes ← Data.fieldOr [] Data.texts? exposes
    some ⟨className, fields, exposes⟩
  | _ => none

namespace PlayerConfig

def ofData? (d : Data) : Option PlayerConfig := do
  match ← d.record? ["player", "runtime", "screen_log", "native_class", "actor"] with
  | [player, runtime, screen, natives, actors] =>
    let player ← Data.fieldOr .default PlayerInfo.ofData? player
    let runtime ← Data.fieldOr .default (fun d => RuntimeConfig.ofData? (d.clipped 4)) runtime
    let screen ← Data.fieldOr .default ScreenConfig.ofData? screen
    let natives ← Data.fieldOr [] (fun d => d.list?.bind (·.mapM NativeClass.ofData?)) natives
    let actors ← Data.fieldOr [] (fun d => d.list?.bind (·.mapM ActorConfig.ofData?)) actors
    some ⟨player, runtime, screen, natives, actors⟩
  | _ => none

def load? (text : String) : Option PlayerConfig :=
  (Toml.parse? text).bind ofData?

end PlayerConfig

end Nodeflow
