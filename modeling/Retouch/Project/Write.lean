import Retouch.Project.Basic
import Retouch.Project.Folders
import Retouch.Text.LineBreak

/-!
# Writing files of a project

A file is written as a whole, next to a copy of what it held if copies are wanted. The line breaks of the
file are kept, whatever those of the new text are; and nothing is written when the file no longer holds
the text that an edit started from.
-/
namespace Retouch.Project

/-- What the file holds now, as bytes and as a text. -/
def readCurrent (path : Files.Path) : Action (Text.Bytes × List Char) := do
  let failed {α : Type} (reason : String) : Action α :=
    refuse .writeError ("Failed to read " ++ path.toText ++ ": " ++ reason) none
  if path.names.any fun name => name.toList.contains '\x00' then throw .nulInPath
  match (← get).disk.read path with
  | .error e => failed e.message
  | .ok bytes =>
    match ← decode bytes with
    | .error e => failed e.message
    | .ok text => return (bytes, text)

/-- The name of the copy of a file, made as the write of a number. -/
def backupName (path : Files.Path) (number : Nat) : String :=
  path.lastName ++ "." ++ toString number ++ ".backup"

/-- What the name of a copy adds to the name of its file, in bytes: a stamp of the time and a suffix. -/
def backupRoom : Nat := 30

/-- The name of a file that is written before it takes the place of another. -/
def draftName (path : Files.Path) (number : Nat) : String :=
  "." ++ path.lastName ++ "." ++ toString number ++ ".tmp"

/-- What the name of a draft adds to the name of its file, in bytes: eight letters, and what is around them. -/
def draftRoom : Nat := 14

/-- Whether a file's name leaves no room for so many bytes more. -/
def lacksRoom (path : Files.Path) (room : Nat) : Bool :=
  Files.Disk.nameLimit < path.lastName.utf8ByteSize + room

/-- A number that no draft in a folder has yet. -/
def draftNumber (disk : Files.Disk) (folder : Files.Place) (path : Files.Path) : Nat :=
  ((List.range' disk.writes (disk.nodes.length + 1)).find? fun number =>
    disk.node? (folder ++ [draftName path number]) == none).getD disk.writes

/-- Copies a file, if its copy finds a place; says whether it did. -/
def backUp (path : Files.Path) (bytes : Text.Bytes) : Action Bool := do
  let project ← get
  let folder := backupsFolder project.root
  match project.disk.makeFolders folder with
  | .error _ => return false
  | .ok disk =>
    if lacksRoom path backupRoom then
      set { project with disk }
      return false
    let copy := folder.child (backupName path disk.writes)
    set { project with disk := disk.write copy.names bytes }
    return true

/-- Makes ready to write a file: it must hold the expected text, and is copied if copies are wanted.
Gives the present text, and whether there is a copy. -/
def prepareWrite (path : Files.Path) (expected : Option (List Char)) :
    Action (List Char × Bool) := do
  let (bytes, current) ← readCurrent path
  match expected with
  | some text =>
    if current ≠ text then
      refuse .writeError (path.toText ++ " changed on disk while the edit was being applied")
        (naming path.toText)
  | none => pure ()
  let copied ← if (← get).settings.backups then backUp path bytes else pure false
  return (current, copied)

/-- Puts bytes in the place of a file. Where the text has no bytes, an empty draft is left behind. -/
def replaceFile (path : Files.Path) (content : List Char) : Action Unit := do
  let project ← get
  let place ← lift .path (project.disk.locate path)
  let folder := place.dropLast
  let draft := draftName path (draftNumber project.disk folder path)
  if lacksRoom path draftRoom then
    let fault : Files.PathError := ⟨.longName, ⟨path.absolute, path.names.dropLast ++ [draft]⟩⟩
    refuse .writeError ("Failed to write " ++ path.toText ++ ": " ++ fault.message) none
  match Files.Encoding.ofName? project.settings.encoding with
  | none => throw (.unknownEncoding project.settings.encoding)
  | some encoding =>
    match encoding.encode content with
    | .ok bytes => set { project with disk := project.disk.write place bytes }
    | .error e =>
      set { project with disk := project.disk.write (folder ++ [draft]) [] }
      throw (.unencodable e)

/-- Writes a text with the line breaks that the file has. Gives the text as it was written, and whether
the file was copied. -/
def write (path : Files.Path) (content : List Char) (expected : Option (List Char)) :
    Action (List Char × Bool) := do
  let (current, copied) ← prepareWrite path expected
  let content := (Text.LineBreak.ofText current).apply content
  replaceFile path content
  return (content, copied)

end Retouch.Project
