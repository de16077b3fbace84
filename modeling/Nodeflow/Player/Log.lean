/-!
# Log lines
-/

namespace Nodeflow

inductive LogLevel where
  | info
  | warn
  | error
  deriving DecidableEq, Repr

def LogLevel.name : LogLevel → String
  | .info => "INFO"
  | .warn => "WARN"
  | .error => "ERROR"

structure LogLine where
  level : LogLevel
  target : String
  text : String
  deriving DecidableEq, Repr

abbrev Log := List LogLine

def LogLine.render (l : LogLine) : String :=
  l.level.name ++ " " ++ l.target ++ ": " ++ l.text

end Nodeflow
