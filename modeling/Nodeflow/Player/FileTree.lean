/-!
# Files

A snapshot of files and directories under their paths, and the few questions the player
asks about paths.
-/

namespace Nodeflow

abbrev Path := List String

/-- Files with their texts, and directories.  A directory needs no entry of its own if it
holds something. -/
structure FileTree where
  entries : List (Path × Option String)

namespace FileTree

def isIdle (part : String) : Bool :=
  part == "" || part == "."

def steps (path : String) : Path :=
  match path.splitOn "/" with
  | "" :: rest => if rest.isEmpty then [] else "/" :: rest
  | parts => parts

def walk (place : Path) (part : String) : Path :=
  if part == ".." then
    match place.getLast? with
    | none => [".."]
    | some last => if last == ".." then place ++ [".."] else place.dropLast
  else if isIdle part then place
  else place ++ [part]

def ofList (files : List (String × Option String)) : FileTree :=
  ⟨files.map fun (path, content) => ((steps path).foldl walk [], content)⟩

/-- Whether a place is a directory; where a path starts is one. -/
def isDirectory (t : FileTree) (place : Path) : Bool :=
  place.isEmpty || t.entries.any fun (path, content) =>
    if path == place then content.isNone else place.isPrefixOf path

/-- The place a path leads to.  Every step starts from a directory, and an empty path
leads nowhere. -/
def resolve? (t : FileTree) (path : String) : Option Path :=
  if path.isEmpty then none
  else (steps path).foldlM (fun place part =>
    if place == ["/"] || place.getLast? == some ".." || t.isDirectory place then
      some (walk place part)
    else none) []

def read? (t : FileTree) (path : String) : Option String := do
  let place ← t.resolve? path
  let entry ← t.entries.find? fun e => e.1 == place
  entry.2

def list? (t : FileTree) (path : String) : Option (List String) := do
  let place ← t.resolve? path
  if t.isDirectory place then
    let names := t.entries.filterMap fun (path, _) =>
      if place.isPrefixOf path then (path.drop place.length).head? else none
    some names.eraseDups
  else none

end FileTree

/-! ## Paths as texts -/

def joinPath (directory path : String) : String :=
  if path.startsWith "/" || directory.isEmpty then path
  else if directory.endsWith "/" then directory ++ path
  else directory ++ "/" ++ path

private def dropIdle : List String → List String
  | [] => []
  | [first] => if first == "" then [] else [first]
  | part :: rest => if FileTree.isIdle part then dropIdle rest else part :: rest

def parentPath? (path : String) : Option String :=
  match dropIdle (path.splitOn "/").reverse with
  | [] => none
  | _ :: above =>
    match dropIdle above with
    | [] => some (if path.startsWith "/" then "/" else "")
    | parts => some ("/".intercalate parts.reverse)

/-- What follows the last dot of a file name.  A dot at the front is part of the name. -/
def extension? (name : String) : Option String :=
  match (name.splitOn ".").reverse with
  | [] | [_] | [_, ""] => none
  | ext :: _ => some ext

end Nodeflow
