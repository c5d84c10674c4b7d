import Retouch.Files.Disk
import Retouch.Files.Encoding
import Retouch.Json.Reader
import Retouch.Markup.TextEdit
import Retouch.Sheet.Declare
import Retouch.Wire.Fault

/-!
# Projects

A project is a folder of sources that a page is made from. An action reads and edits them; it answers or
says what went wrong, and in both cases it leaves a project behind. What was read is kept as it was read,
and is read again only when the file holds another text.
-/
namespace Retouch

/-- How a project is edited. -/
structure Settings where
  /-- Whether a file is copied before it is written. -/
  backups : Bool := false
  /-- Whether transforms are recorded. -/
  history : Bool := true
  encoding : String := "utf-8"
  deriving DecidableEq, Repr

/-- The text of a file when it was read or written last, and what it is read as. -/
structure Cached (α : Type) where
  text : List Char
  parsed : α

/-- What was read, by the place of the file. -/
abbrev Shelf (α : Type) := Table Files.Path (Cached α)

namespace Shelf

variable {α : Type}

/-- What is kept for a file that holds this text. -/
def fresh? (shelf : Shelf α) (path : Files.Path) (text : List Char) : Option α :=
  match Table.get? shelf path with
  | some kept => if kept.text = text then some kept.parsed else none
  | none => none

end Shelf

/-- The files that were read, and how often reading could be spared or not. -/
structure Cache where
  documents : Shelf Markup.Document := []
  sheets : Shelf Sheet := []
  hits : Nat := 0
  misses : Nat := 0

namespace Cache

def size (cache : Cache) : Nat := cache.documents.length + cache.sheets.length

def has (cache : Cache) (path : Files.Path) : Bool :=
  Table.has cache.documents path || Table.has cache.sheets path

/-- Forgets a file. -/
def drop (cache : Cache) (path : Files.Path) : Cache :=
  { cache with documents := Table.drop cache.documents path, sheets := Table.drop cache.sheets path }

/-- Forgets all files, but not the counts. -/
def clear (cache : Cache) : Cache := { cache with documents := [], sheets := [] }

end Cache

structure Project where
  root : Files.Path
  settings : Settings := {}
  disk : Files.Disk
  cache : Cache := {}
  /-- How many transforms were recorded so far. -/
  recorded : Nat := 0
  /-- The time, as records tell it. -/
  now : String := ""

/-- A record that cannot be used. -/
inductive RecordError where
  | undecodable (e : Text.Utf8.DecodeError)
  | unreadable (e : Json.ReadError)
  | notObject (found : Json)
  | noPatches
  | patchesNotList (found : Json)
  | patchNotObject
  | pathNotText (found : Json)
  | contentNotText
  deriving Repr

/-- The name of the kind of a value, as messages use it. -/
def Json.kindName : Json → String
  | .null => "NoneType"
  | .bool _ => "bool"
  | .int _ => "int"
  | .real _ => "float"
  | .str _ => "str"
  | .arr _ => "list"
  | .obj _ => "dict"

def RecordError.message : RecordError → String
  | .undecodable e => e.message
  | .unreadable e => e.message
  | .notObject (.arr _) => "list indices must be integers or slices, not str"
  | .notObject found => "'" ++ found.kindName ++ "' object does not support item assignment"
  | .noPatches => "'reverse_patches'"
  | .patchesNotList found => "'" ++ found.kindName ++ "' object is not iterable"
  | .patchNotObject => "object has no attribute 'get'"
  | .pathNotText found => "expected str, bytes or os.PathLike object, not " ++ found.kindName
  | .contentNotText => "object has no attribute 'replace'"

/-- Why an action was not completed. -/
inductive ProjectError where
  /-- It was refused, for a reason that an answer can carry. -/
  | refused (e : TransformError)
  | sheet (e : Sheet.EditError)
  | splice (e : Text.Utf8.DecodeError)
  | place (e : Markup.PlaceError)
  | unencodable (e : Files.Encoding.EncodeError)
  | unknownEncoding (name : String)
  | path (e : Files.PathError)
  | nulInPath
  | record (e : RecordError)
  /-- A fault of a handler that is not one of the library's own. -/
  | foreign (message : String)
  /-- A refusal that cannot be put into an answer. -/
  | unreportable (r : Wire.Rejection)
  deriving Repr

def Markup.PlaceError.message : Markup.PlaceError → String
  | .lineOutOfRange => "list index out of range"

def ProjectError.message : ProjectError → String
  | .refused e => e.message
  | .sheet e => e.message
  | .splice e => e.message
  | .place e => e.message
  | .unencodable e => e.message
  | .unknownEncoding name => "unknown encoding: " ++ name
  | .path e => e.message
  | .nulInPath => "embedded null byte"
  | .record e => e.message
  | .foreign message => message
  | .unreportable r => r.headline

namespace Project

/-- Something done with a project. -/
abbrev Action (α : Type) := ExceptT ProjectError (StateM Project) α

/-- The outcome of an action, and the project afterwards. -/
def perform {α : Type} (project : Project) (action : Action α) : Except ProjectError α × Project :=
  action.run.run project

def refuse {α : Type} (code : ErrorCode) (message : String) (details : Option Json.Members) :
    Action α :=
  throw (.refused ⟨code, message, details⟩)

/-- The details that name a file. -/
def naming (file : String) : Option Json.Members := some [("file", .str file)]

/-- Hands on an outcome that does not depend on the project. -/
def lift {ε α : Type} (wrap : ε → ProjectError) : Except ε α → Action α
  | .ok a => pure a
  | .error e => throw (wrap e)

/-- The place of a file inside the project. -/
def locate (file : String) : Action Files.Path := do
  let project ← get
  if file.toList.contains '\x00' then throw .nulInPath
  let path := (project.root.join (.ofText file)).normal
  if project.root.contains path then return path
  else refuse .validationError ("Path '" ++ file ++ "' is outside the project directory") (naming file)

/-- The text of a file in the project's encoding. -/
def decode (bytes : Text.Bytes) : Action (Except Files.Encoding.DecodeError (List Char)) := do
  let name := (← get).settings.encoding
  match Files.Encoding.ofName? name with
  | some encoding => return encoding.decode bytes
  | none => throw (.unknownEncoding name)

/-- The place and the text of a file that a request names. -/
def readSource (file : String) : Action (Files.Path × List Char) := do
  let path ← locate file
  let disk := (← get).disk
  if !(← lift .path (disk.isFile path)) then
    refuse .fileNotFound ("File not found: " ++ file) (naming file)
  match disk.read path with
  | .error e => refuse .fileNotFound ("Cannot read " ++ file ++ ": " ++ e.message) (naming file)
  | .ok bytes =>
    match ← decode bytes with
    | .error e => refuse .parseError ("Cannot decode " ++ file ++ ": " ++ e.message) (naming file)
    | .ok text => return (path, text)

def modifyCache (change : Cache → Cache) : Action Unit :=
  modify fun project => { project with cache := change project.cache }

/-- The document of a markup file, with its place and text. -/
def loadDocument (file : String) : Action (Files.Path × Cached Markup.Document) := do
  match Markup.Language.ofPath? file with
  | none => refuse .validationError ("Unsupported markup file type: " ++ file) (naming file)
  | some language =>
    let (path, text) ← readSource file
    match (← get).cache.documents.fresh? path text with
    | some found =>
      modifyCache fun cache => { cache with hits := cache.hits + 1 }
      return (path, ⟨text, found⟩)
    | none =>
      let read : Cached Markup.Document := ⟨text, .ofChars language text⟩
      modifyCache fun cache => { cache with
        documents := Table.put cache.documents path read
        misses := cache.misses + 1 }
      return (path, read)

/-- The sheet of a style file, with its place and text. -/
def loadSheet (file : String) : Action (Files.Path × Cached Sheet) := do
  if file = "" then refuse .validationError "Target has no style file" none
  if Files.suffix file ≠ Files.styleSuffix then
    refuse .validationError ("Unsupported style file type: " ++ file) (naming file)
  let (path, text) ← readSource file
  match (← get).cache.sheets.fresh? path text with
  | some found =>
    modifyCache fun cache => { cache with hits := cache.hits + 1 }
    return (path, ⟨text, found⟩)
  | none =>
    let read : Cached Sheet := ⟨text, .ofChars text⟩
    modifyCache fun cache => { cache with
      sheets := Table.put cache.sheets path read
      misses := cache.misses + 1 }
    return (path, read)

/-- Forgets what was read of a file; says how many readings there were. -/
def invalidate (path : Files.Path) : Action Nat := do
  let project ← get
  let path := (project.root.join path).normal
  modifyCache (·.drop path)
  return project.cache.size - (project.cache.drop path).size

/-- Forgets what was read of all files. -/
def invalidateAll : Action Nat := do
  let size := (← get).cache.size
  modifyCache Cache.clear
  return size

/-- A project over the same files that has read nothing yet. -/
def reopened (project : Project) : Project := { project with cache := {} }

end Project

end Retouch
