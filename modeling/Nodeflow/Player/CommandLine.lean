import Nodeflow.Player.Game

/-!
# The command line

The player takes a configuration, and a number of ticks in place of the configured one;
or it prints the palette of capabilities, or its own help.
-/

namespace Nodeflow

inductive Command where
  | run (config : String) (ticks : Option Nat)
  | listCapabilities
  | help
  | refuse
  deriving DecidableEq, Repr

/-! ## Arguments -/

structure Options where
  config : Option String
  ticks : Option Nat
  listCapabilities : Bool

namespace Options

def none : Options := ⟨.none, .none, false⟩

def defaultConfig : String := "data/player.toml"

def command (o : Options) : Command :=
  if o.listCapabilities then .listCapabilities
  else .run (o.config.getD defaultConfig) o.ticks

def signed? (s : String) : Option Int :=
  match s.toList with
  | '-' :: digits => (number? digits).map fun n => -(n : Int)
  | '+' :: digits => (number? digits).map Int.ofNat
  | digits => (number? digits).map Int.ofNat
where
  number? (digits : List Char) : Option Nat :=
    if digits.isEmpty || !digits.all Char.isDigit then .none else some (digitsValue digits)

def tickCount? (s : String) : Option Nat :=
  (signed? s).bind fun i => if 0 ≤ i ∧ i < UInt32.size then some i.toNat else .none

def setConfig? (o : Options) (value : String) : Option Options :=
  if o.config.isSome || value.isEmpty then .none else some { o with config := some value }

def setTicks? (o : Options) (value : String) : Option Options :=
  if o.ticks.isSome then .none
  else (tickCount? value).map fun n => { o with ticks := some n }

def setList? (o : Options) : Option Options :=
  if o.listCapabilities then .none else some { o with listCapabilities := true }

end Options

def isOption (arg : String) : Bool :=
  arg.startsWith "-" && arg != "-"

inductive Argument where
  | config (value : Option String)
  | ticks (value : Option String)
  | listCapabilities
  | help
  | endOfOptions
  | unknown
  deriving DecidableEq, Repr

namespace Argument

private def splitLong (arg : String) : String × Option String :=
  let (name, rest) := arg.toList.span (· != '=')
  match rest with
  | [] => (String.ofList name, none)
  | _ :: value => (String.ofList name, some (String.ofList value))

private def long (arg : String) : Argument :=
  match splitLong arg with
  | ("--config", value) => .config value
  | ("--ticks", value) => .ticks value
  | ("--list-capabilities", none) => .listCapabilities
  | ("--help", none) => .help
  | _ => .unknown

private def short : List Char → Argument
  | ['c'] => .config none
  | 'c' :: '=' :: value => .config (some (String.ofList value))
  | 'c' :: value => .config (some (String.ofList value))
  | 'h' :: _ => .help
  | _ => .unknown

def ofText (arg : String) : Argument :=
  match arg.toList with
  | ['-', '-'] => .endOfOptions
  | '-' :: '-' :: _ => long arg
  | '-' :: rest => short rest
  | _ => .unknown

end Argument

/-- Reads arguments from left to right; the first that is wrong, or asks for help, decides. -/
def readArguments (o : Options) : List String → Command
  | [] => o.command
  | arg :: rest =>
    match Argument.ofText arg with
    | .config (some value) => continueWith (o.setConfig? value) rest
    | .ticks (some value) => continueWith (o.setTicks? value) rest
    | .config none =>
      match rest with
      | value :: rest => if isOption value then .refuse else continueWith (o.setConfig? value) rest
      | [] => .refuse
    | .ticks none =>
      match rest with
      | value :: rest => if isOption value then .refuse else continueWith (o.setTicks? value) rest
      | [] => .refuse
    | .listCapabilities => continueWith o.setList? rest
    | .help => .help
    | .endOfOptions => if rest.isEmpty then o.command else .refuse
    | .unknown => .refuse
where
  continueWith (o : Option Options) (rest : List String) : Command :=
    match o with
    | some o => readArguments o rest
    | none => .refuse

def Command.ofArguments (args : List String) : Command :=
  readArguments .none args

/-! ## Output -/

def capabilityLine (d : Descriptor) : String :=
  let params := d.params.map fun p => p.name ++ ": " ++ p.type.name
  let latent := if d.latent then " (latent)" else ""
  "  " ++ d.id ++ "(" ++ ", ".intercalate params ++ ")" ++ latent ++ " - " ++ d.description

def palette (r : Registry) : List String :=
  r.categories.flatMap fun category =>
    category.title :: (r.inCategory category).map capabilityLine

def helpLines : List String :=
  [ "Runs blueprint classes headlessly"
  , ""
  , "Usage: blueprint-player [OPTIONS]"
  , ""
  , "Options:"
  , "  -c, --config <CONFIG>    Path to the player configuration [default: data/player.toml]"
  , "      --ticks <TICKS>      Number of ticks to run, overriding the configuration"
  , "      --list-capabilities  Print the capability palette and exit"
  , "  -h, --help               Print help" ]

structure Session where
  exitCode : UInt32
  lines : List String
  complaint : Option String

def linesOf (log : Log) : List String :=
  log.flatMap fun line => line.render.splitOn "\n"

def startLine : LogLine :=
  ⟨.info, playerTarget, "Starting blueprint player v0.1.0"⟩

def runGame (files : FileTree) (config : String) (ticks : Option Nat) : Session :=
  match Game.load files config with
  | (log, .error e) => ⟨1, linesOf (startLine :: log), some e.message⟩
  | (_, .ok game) =>
    match game.run (ticks.getD game.config.player.ticks) with
    | (game, some e) => ⟨1, linesOf (startLine :: game.log), some e.message⟩
    | (game, none) =>
      let lines := linesOf (startLine :: game.log)
      if game.panicked then ⟨101, lines, some "panicked"⟩ else ⟨0, lines, none⟩

def Command.execute (files : FileTree) : Command → Session
  | .run config ticks => runGame files config ticks
  | .listCapabilities => ⟨0, palette playerRegistry, none⟩
  | .help => ⟨0, helpLines, none⟩
  | .refuse => ⟨2, [], some "unexpected arguments"⟩

end Nodeflow
