import Nodeflow.Graph.Json
import Nodeflow.Player.FileTree
import Nodeflow.World.Basic

/-!
# Blueprint assets

An asset is a file that holds one generated class.  Assets are registered in rounds,
every round taking those whose parent is registered by then, so the order of the files
does not matter.
-/

namespace Nodeflow

structure Asset where
  version : Nat
  className : String
  parent : Option String
  graph : GraphDefinition
  deriving DecidableEq

inductive AssetError where
  | read (file : Option String)
  | parse (file : String)
  | register (className : String) (source : ClassError)
  deriving DecidableEq

namespace Asset

def currentVersion : Nat := 1

def ofData? (d : Data) : Option Asset := do
  match ← d.record? ["version", "class", "parent", "graph"] with
  | [version, some className, parent, some graph] =>
    let version ← Data.fieldOr currentVersion (Data.natBelow? UInt32.size) version
    let className ← className.text?
    let parent ← Data.fieldOr none (Data.nullable? Data.text?) parent
    let graph ← GraphDefinition.ofData? (jsonDepthLimit - 1) graph
    some ⟨version, className, parent, graph⟩
  | _ => none

def load? (text : String) : Option Asset :=
  (Json.parse? text).bind fun json => ofData? json.toData

/-! ## Files -/

def isAssetFile (name : String) : Bool :=
  match extension? name with
  | some ext => ext.toLower == "blueprint"
  | none => false

def loadFile (files : FileTree) (directory name : String) : Except AssetError Asset :=
  match files.read? (joinPath directory name) with
  | none => .error (.read (some name))
  | some text =>
    match load? text with
    | none => .error (.parse name)
    | some asset => .ok asset

def loadDirectory (files : FileTree) (directory : String) : Except AssetError (List Asset) :=
  match files.list? directory with
  | none => .error (.read none)
  | some names =>
    ((names.filter isAssetFile).mergeSort fun a b => !(b < a)).mapM (loadFile files directory)

/-! ## Registration -/

structure Registration where
  world : World
  reports : List (String × Diagnostic)
  error : Option AssetError

/-- Registers assets one after the other, up to the first that is refused. -/
def registerEach (w : World) : List Asset → Registration
  | [] => ⟨w, [], none⟩
  | asset :: rest =>
    match w.registerGenerated asset.className asset.parent asset.graph with
    | .error e => ⟨w, [], some (.register asset.className e)⟩
    | .ok (w, diagnostics) =>
      let later := registerEach w rest
      { later with reports := diagnostics.map (asset.className, ·) ++ later.reports }

def isReady (w : World) (asset : Asset) : Bool :=
  asset.parent.all w.classes.contains

theorem length_waiting_lt {w : World} {pending : List Asset}
    (h : ¬(pending.filter (isReady w)).isEmpty = true) :
    (pending.filter fun asset => !isReady w asset).length < pending.length := by
  have hne : pending.filter (isReady w) ≠ [] := fun hnil => h (by rw [hnil]; rfl)
  obtain ⟨asset, hasset⟩ := List.exists_mem_of_ne_nil _ hne
  obtain ⟨hmem, hready⟩ := List.mem_filter.1 hasset
  exact List.length_filter_lt_length_iff_exists.2 ⟨asset, hmem, by simpa using hready⟩

/-- Registers assets in rounds, parents before children.  A round in which none is ready
ends with an error about the first that waits. -/
def registerAll (w : World) (pending : List Asset) : Registration :=
  match pending with
  | [] => ⟨w, [], none⟩
  | first :: rest =>
    let ready := (first :: rest).filter (isReady w)
    let waiting := (first :: rest).filter fun asset => !isReady w asset
    if ready.isEmpty then
      let e := ClassError.unknownParent first.className (first.parent.getD "")
      ⟨w, [], some (.register first.className e)⟩
    else
      let round := registerEach w ready
      match round.error with
      | some e => ⟨round.world, round.reports, some e⟩
      | none =>
        let later := registerAll round.world waiting
        { later with reports := round.reports ++ later.reports }
termination_by pending.length
decreasing_by exact length_waiting_lt (by assumption)

end Asset

/-- The message of a class that could not be registered; what a reader of files says is
not told here. -/
def AssetError.message : AssetError → String
  | .read file => "failed to read " ++ file.getD "the directory"
  | .parse file => "failed to parse " ++ file
  | .register className source => "cannot register `" ++ className ++ "`: " ++ source.message

end Nodeflow
