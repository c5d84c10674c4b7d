import Retouch.Files.Path
import Retouch.Table
import Retouch.Text.Utf8

/-!
# Folders and files

The folders and files that an edit can see, each under the names that lead to it from the root. What is
written carries the number of its write, so that files can be put in the order of their age. A path is
followed step by step, and the first step that fails says why. Main statement: `bytes?_write`, a file that
was written holds what was written to it, and no other file changes.
-/
namespace Retouch.Files

/-- What is wrong with a path for what is asked of it. -/
inductive PathFault where
  | missing
  | notFolder
  | isFolder
  | taken
  | longName
  deriving DecidableEq, Repr

def PathFault.number : PathFault → Nat
  | .missing => 2
  | .taken => 17
  | .notFolder => 20
  | .isFolder => 21
  | .longName => 36

def PathFault.describe : PathFault → String
  | .missing => "No such file or directory"
  | .taken => "File exists"
  | .notFolder => "Not a directory"
  | .isFolder => "Is a directory"
  | .longName => "File name too long"

/-- A path that could not be used, and why. -/
structure PathError where
  fault : PathFault
  path : Path
  deriving DecidableEq, Repr

def PathError.message (e : PathError) : String :=
  let number := toString e.fault.number
  "[Errno " ++ number ++ "] " ++ e.fault.describe ++ ": " ++ Text.quoted e.path.toText

structure File where
  bytes : Text.Bytes
  /-- The number of the write that made the file what it is. -/
  age : Nat
  deriving DecidableEq, Repr

inductive Node where
  | folder
  | file (f : File)
  deriving DecidableEq, Repr

/-- The names from the root to a folder or file. -/
abbrev Place := List String

structure Disk where
  nodes : Table Place Node := []
  /-- Where paths start that do not start at the root. -/
  home : Place := []
  writes : Nat := 0
  deriving Repr

namespace Disk

/-- The folder or file at a place; the root is always there. -/
def node? (disk : Disk) (place : Place) : Option Node :=
  if place = [] then some .folder else disk.nodes.get? place

/-- Names have this many bytes at most. -/
def nameLimit : Nat := 255

/-- Follows names from a place on, each of them through a folder. -/
def follow (disk : Disk) (here : Place) : List String → Except PathFault Place
  | [] => .ok here
  | name :: rest =>
    match disk.node? here with
    | none => .error .missing
    | some (.file _) => .error .notFolder
    | some .folder =>
      if nameLimit < name.utf8ByteSize then .error .longName
      else if name = Path.back then disk.follow here.dropLast rest
      else disk.follow (here ++ [name]) rest

/-- The place that a path leads to. -/
def locate (disk : Disk) (path : Path) : Except PathError Place :=
  (disk.follow (if path.absolute then [] else disk.home) path.names).mapError (⟨·, path⟩)

/-- What a path leads to, if there is something. -/
def find? (disk : Disk) (path : Path) : Except PathError (Option Node) :=
  match disk.locate path with
  | .ok place => .ok (disk.node? place)
  | .error ⟨.longName, path⟩ => .error ⟨.longName, path⟩
  | .error _ => .ok none

def isFile (disk : Disk) (path : Path) : Except PathError Bool :=
  (disk.find? path).map fun
    | some (.file _) => true
    | _ => false

/-- The bytes of a file. -/
def read (disk : Disk) (path : Path) : Except PathError Text.Bytes := do
  match disk.node? (← disk.locate path) with
  | some (.file f) => return f.bytes
  | some .folder => .error ⟨.isFolder, path⟩
  | none => .error ⟨.missing, path⟩

/-- Writes a file at a place, whose folder must be there. -/
def write (disk : Disk) (place : Place) (bytes : Text.Bytes) : Disk :=
  { disk with
    nodes := disk.nodes.put place (.file ⟨bytes, disk.writes⟩)
    writes := disk.writes + 1 }

/-- Removes what is at a place, and all that lies in it. -/
def remove (disk : Disk) (place : Place) : Disk :=
  { disk with nodes := disk.nodes.filter fun entry => !place.isPrefixOf entry.1 }

/-- Makes the folders that lead from a place along some names, as far as they are not there. -/
def makeFrom (disk : Disk) (here : Place) : List String → Except PathFault Disk
  | [] => .ok disk
  | name :: rest =>
    let next := here ++ [name]
    match disk.node? next with
    | some .folder => disk.makeFrom next rest
    | some (.file _) => .error (if rest.isEmpty then .taken else .notFolder)
    | none => makeFrom { disk with nodes := disk.nodes.put next .folder } next rest

/-- Makes a folder with all the folders around it. -/
def makeFolders (disk : Disk) (path : Path) : Except PathError Disk :=
  (disk.makeFrom [] path.names).mapError (⟨·, path⟩)

/-- What lies directly in a folder. -/
def children (disk : Disk) (folder : Place) : List (String × Node) :=
  disk.nodes.filterMap fun (place, node) =>
    match place.getLast? with
    | some name => if place.dropLast = folder then some (name, node) else none
    | none => none

/-- The bytes of the file at a place. -/
def bytes? (disk : Disk) (place : Place) : Option Text.Bytes :=
  match disk.node? place with
  | some (.file f) => some f.bytes
  | _ => none

theorem node?_write (disk : Disk) (place other : Place) (bytes : Text.Bytes) (inner : place ≠ []) :
    (disk.write place bytes).node? other =
      if place = other then some (.file ⟨bytes, disk.writes⟩) else disk.node? other := by
  unfold node? write
  by_cases root : other = []
  · subst root
    simp [inner]
  · simp [root, Table.get?_put]

/-- A file that was written holds what was written to it, and no other file changes. -/
theorem bytes?_write (disk : Disk) (place other : Place) (bytes : Text.Bytes) (inner : place ≠ []) :
    (disk.write place bytes).bytes? other = if place = other then some bytes else disk.bytes? other := by
  unfold bytes?
  rw [node?_write _ _ _ _ inner]
  by_cases same : place = other <;> simp [same]

end Disk

end Retouch.Files
