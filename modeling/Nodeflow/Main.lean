import Nodeflow.Player.CommandLine

/-!
# The player as a program

What a command needs from the disk is read first: the configuration, and the directory
of the blueprints it names.  All else is decided by the library.
-/

namespace Nodeflow

def readFile? (path : String) : IO (Option String) := do
  try
    return some (← IO.FS.readFile path)
  catch _ =>
    return none

def readDirectory? (path : String) : IO (Option (List String)) := do
  try
    let entries ← ((← IO.currentDir) / path).readDir
    return some (entries.toList.map fun entry => entry.fileName)
  catch _ =>
    return none

def snapshot (directory : String) : IO (List (String × Option String)) := do
  match ← readDirectory? directory with
  | none => return []
  | some names =>
    let files ← names.mapM fun name => do
      let path := joinPath directory name
      return (path, ← readFile? path)
    return (directory, none) :: files

def filesFor (configPath : String) : IO FileTree := do
  match ← readFile? configPath with
  | none => return .ofList []
  | some text =>
    let config : List (String × Option String) := [(configPath, some text)]
    match PlayerConfig.load? text with
    | none => return .ofList config
    | some c => return .ofList (config ++ (← snapshot (blueprintDirectory configPath c)))

def Command.files : Command → IO FileTree
  | .run config _ => filesFor config
  | _ => return .ofList []

end Nodeflow

open Nodeflow in
def main (args : List String) : IO UInt32 := do
  let command := Command.ofArguments args
  let session := command.execute (← command.files)
  session.lines.forM IO.println
  session.complaint.forM fun text => IO.eprintln ("Error: " ++ text)
  return session.exitCode
