import Retouch.Json.Writer
import Retouch.Project.Write
import Retouch.Text.Digit

/-!
# The history of a project

Each transform is recorded in a file of its own, with the text that each of its files had before. A record
is read leniently: what is no record is passed over, and a record may hold more than was put there. To
undo a transform is to write those texts again, whatever has happened since.
-/
namespace Retouch.Project

/-- The text that a file had before a transform. -/
structure Patch where
  file : Files.Path
  content : List Char

def fileKey : String := "file_path"
def contentKey : String := "original_content"
def patchesKey : String := "reverse_patches"
def idKey : String := "transaction_id"

def Patch.members (patch : Patch) : Json.Members :=
  [(fileKey, .str patch.file.toText), (contentKey, .str (String.ofList patch.content))]

/-- What is recorded of a transform. -/
structure Record where
  kind : String
  requestId : String
  patches : List Json.Members
  metadata : Json.Members

/-- The record as it is kept, in the order of its members. -/
def Record.toJson (r : Record) (now : String) : Json :=
  .obj [("timestamp", .str now), ("transform_type", .str r.kind), ("request_id", .str r.requestId),
    ("files", .arr (r.patches.map fun patch => (patch.lookup fileKey).getD .null)),
    (patchesKey, .arr (r.patches.map .obj)), ("metadata", .obj r.metadata)]

/-- The id of the transform that is recorded as the one of a number. -/
def transactionId (number : Nat) : String := "tx" ++ toString number

def recordSuffix : String := ".json"

/-- Records a transform; gives its id, or nothing when the record finds no place. -/
def record (r : Record) : Action (Option String) := do
  let project ← get
  let folder := historyFolder project.root
  match project.disk.makeFolders folder with
  | .error _ => return none
  | .ok disk =>
    let id := transactionId (project.recorded + 1)
    let text := (r.toJson project.now).writeIndented 0
    let file := folder.child (id ++ recordSuffix)
    set { project with
      disk := disk.write file.names (Text.Utf8.encode text.toList)
      recorded := project.recorded + 1 }
    return some id

/-- A record's file: its name, and its age if it is a file. -/
structure RecordFile where
  name : String
  age : Nat
  deriving Repr

/-- Whether one file comes before another: the newer one first, and of two folders the later name. -/
def RecordFile.before (a b : RecordFile) : Bool :=
  b.age < a.age || (a.age == b.age && b.name ≤ a.name)

/-- The files of all records, newest first. -/
def recordFiles (disk : Files.Disk) (folder : Files.Path) : List RecordFile :=
  let found := (disk.children folder.names).filterMap fun (name, node) =>
    if recordSuffix.toList.isSuffixOf name.toList then
      some (match node with
        | .file f => { name, age := f.age + 1 : RecordFile }
        | .folder => { name, age := 0 })
    else none
  found.mergeSort RecordFile.before

/-- The record in a file; nothing when the file is no record. -/
def readRecord? (path : Files.Path) : Action (Option Json.Members) := do
  match (← get).disk.read path with
  | .error _ => return none
  | .ok bytes =>
    let text ← lift (.record ∘ .undecodable) (Text.Utf8.decode bytes)
    match Json.readChars (Text.LineBreak.unify text) with
    | .ok (.obj members) => return some members
    | .ok found => throw (.record (.notObject found))
    | .error e =>
      match e.fault with
      | .longInteger _ | .tooDeep => throw (.record (.unreadable e))
      | _ => return none

/-- The first items of a list; a negative number says how many are left out at the end. -/
def firstItems {α : Type} (count : Int) (items : List α) : List α :=
  if 0 ≤ count then items.take count.toNat else items.take (items.length - (-count).toNat)

/-- The items that `firstItems` leaves out. -/
def otherItems {α : Type} (count : Int) (items : List α) : List α :=
  if 0 ≤ count then items.drop count.toNat else items.drop (items.length - (-count).toNat)

/-- Records are listed up to this number, unless asked otherwise. -/
def historyLimit : Int := 50

/-- The record of a file, with its id among the members. -/
def entry? (folder : Files.Path) (name : String) (id : String) : Action (Option Json.Members) := do
  let found ← readRecord? (folder.child name)
  return found.map fun members => members.insert idKey (.str id)

/-- The newest records, newest first; no number and zero stand for the usual one. -/
def history (limit : Option Int) : Action (List Json.Members) := do
  let project ← get
  let folder := historyFolder project.root
  let count := match limit with
    | none => historyLimit
    | some n => if n = 0 then historyLimit else n
  let files := firstItems count (recordFiles project.disk folder)
  let found ← files.mapM fun file => entry? folder file.name (Files.stem file.name)
  return found.filterMap id

/-- The record of an id. -/
def transaction? (id : String) : Action (Option Json.Members) := do
  let project ← get
  let path := (historyFolder project.root).join (.ofText (id ++ recordSuffix))
  match ← lift .path (project.disk.find? path) with
  | none => return none
  | some _ =>
    let found ← readRecord? path
    return found.map fun members => members.insert idKey (.str id)

/-- Removes the records beyond the newest ones; says how many there were. -/
def clearHistory (keep : Int) : Action Nat := do
  let project ← get
  let folder := historyFolder project.root
  let files := (otherItems keep (recordFiles project.disk folder)).filter fun file => file.age ≠ 0
  let disk := files.foldl (fun disk file => disk.remove (folder.child file.name).names) project.disk
  set { project with disk }
  return files.length

/-- The number of the last transform that is still recorded. -/
def lastRecorded (disk : Files.Disk) (root : Files.Path) : Nat :=
  ((recordFiles disk (historyFolder root)).filterMap fun file =>
    (Text.integer? ((Files.stem file.name).toList.drop 2)).map Int.toNat).foldl max 0

/-- What came of undoing a transform. -/
structure Undone where
  applied : List String := []
  errors : List String := []
  deriving Repr

def Undone.success (u : Undone) : Bool := u.errors.isEmpty

/-- Writes the text of a patch again; says why it could not, if so. -/
def applyPatch (file content : Json) : Action (Option String) :=
  match file with
  | .str name =>
    let attempt : Action (Option String) := match content with
      | .str text => do
        let _ ← write (.ofText name) text.toList none
        pure none
      | _ => do
        let _ ← prepareWrite (.ofText name) none
        throw (.record .contentNotText)
    tryCatch attempt fun
      | .refused e => pure (some ("Failed to revert " ++ name ++ ": " ++ e.message))
      | e => throw e
  | found => throw (.record (.pathNotText found))

/-- Applies the patches of a record one after the other, as far as they are patches. -/
def applyPatches : List Json → Undone → Action Undone
  | [], done => return done
  | .obj patch :: rest, done => do
    let file := (patch.lookup fileKey).getD .null
    let content := (patch.lookup contentKey).getD .null
    if !file.isTruthy || content matches .null then
      let error := "Invalid patch format: " ++ (Json.obj patch).display
      applyPatches rest { done with errors := done.errors ++ [error] }
    else
      match ← applyPatch file content with
      | some error => applyPatches rest { done with errors := done.errors ++ [error] }
      | none => applyPatches rest { done with applied := done.applied ++ [file.plainText] }
  | _ :: _, _ => throw (.record .patchNotObject)

/-- The patches of a record, in the order in which they are applied. -/
def patchesOf (members : Json.Members) : Except RecordError (List Json) :=
  match members.lookup patchesKey with
  | none => .error .noPatches
  | some (.arr patches) => .ok patches
  | some (.str s) => .ok (s.toList.map fun c => .str (String.singleton c))
  | some (.obj members) => .ok (members.map fun member => .str member.1)
  | some found => .error (.patchesNotList found)

/-- Forgets files that were named in full. -/
def forget : List String → Action Unit
  | [] => return ()
  | name :: rest => do
    let disk := (← get).disk
    let path := (Files.Path.join ⟨true, disk.home⟩ (.ofText name)).normal
    modifyCache (·.drop path)
    forget rest

/-- Restores the texts that were recorded with a transform. -/
def undo (id : String) : Action Undone := do
  match ← transaction? id with
  | none => return { errors := ["Transaction " ++ id ++ " not found"] }
  | some members =>
    let patches ← lift .record (patchesOf members)
    let done ← applyPatches patches {}
    forget done.applied
    return done

end Retouch.Project
