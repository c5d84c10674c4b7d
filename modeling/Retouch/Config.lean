import Retouch.Files.Disk
import Retouch.Json.Reader
import Retouch.Project.Folders
import Retouch.Text.LineBreak

/-!
# Configuration

Settings that a user keeps in files: those for all projects, those of one project, and those that hold
without any. A later object adds to an earlier one, member by member and at every depth; any other value
takes the place of what was there. Main statement: `lookup_merge`, what is found after merging.
-/
namespace Retouch.Config

/-- What holds without any file. -/
def defaults : Json.Members :=
  [("server", .obj [("host", .str "127.0.0.1"), ("port", .int 4000)]),
    ("mutation", .obj [("backup_enabled", .bool false), ("history_enabled", .bool true)]),
    ("watcher", .obj [("enabled", .bool true)])]

mutual

/-- A value over what was there before. -/
def mergeValue (base : Option Json) : Json → Json
  | .obj later =>
    match base with
    | some (.obj members) => .obj (merge members later)
    | _ => .obj later
  | .null => .null
  | .bool b => .bool b
  | .int n => .int n
  | .real x => .real x
  | .str s => .str s
  | .arr items => .arr items
termination_by structural value => value

/-- The members of an object over those of another one. -/
def merge (base : Json.Members) : List (String × Json) → Json.Members
  | [] => base
  | member :: rest => merge (mergeMember base member) rest
termination_by structural members => members

def mergeMember (base : Json.Members) : String × Json → Json.Members
  | (key, value) => base.insert key (mergeValue (base.lookup key) value)
termination_by structural member => member

end

/-- The value at the end of some names. -/
def find? (value : Json) : List String → Option Json
  | [] => some value
  | key :: rest =>
    match value.get? key with
    | some inner => find? inner rest
    | none => none

/-- The parts of a key between its points. -/
def keyParts (key : String) : List String := (key.toList.splitOn '.').map String.ofList

/-- The value of a dotted key. -/
def get (config : Json.Members) (key : String) (default : Json) : Json :=
  (find? (.obj config) (keyParts key)).getD default

/-- For whom a file of settings is meant. -/
inductive Scope where
  | everywhere
  | project
  deriving DecidableEq, Repr

def Scope.name : Scope → String
  | .everywhere => "global"
  | .project => "local"

def Scope.title : Scope → String
  | .everywhere => "Global"
  | .project => "Local"

/-- What is wrong with a file of settings. -/
inductive Fault where
  | undecodable (e : Text.Utf8.DecodeError)
  | unreadable (e : Json.ReadError)
  | notObject
  deriving DecidableEq, Repr

structure Error where
  scope : Scope
  path : Files.Path
  fault : Fault
  deriving DecidableEq, Repr

/-- Whether the file nests too deep to be read at all. -/
def Error.isTooDeep (e : Error) : Bool :=
  match e.fault with
  | .unreadable e => e.fault = .tooDeep
  | _ => false

def Error.message (e : Error) : String :=
  let invalid (reason : String) : String :=
    "Invalid JSON in " ++ e.scope.name ++ " config " ++ e.path.toText ++ ": " ++ reason
  match e.fault with
  | .undecodable e => invalid e.message
  | .unreadable e => invalid e.message
  | .notObject => e.scope.title ++ " config " ++ e.path.toText ++ " must be a JSON object"

def readMembers (bytes : Text.Bytes) : Except Fault Json.Members := do
  let text ← (Text.Utf8.decode bytes).mapError .undecodable
  match Json.readChars (Text.LineBreak.unify text) with
  | .ok (.obj members) => return members
  | .ok _ => .error .notObject
  | .error e => .error (.unreadable e)

/-- Adds what a file says, if there is one. -/
def addFile (disk : Files.Disk) (config : Json.Members) (scope : Scope) (path : Files.Path) :
    Except Error Json.Members :=
  match disk.read path with
  | .error _ => .ok config
  | .ok bytes => ((readMembers bytes).map (merge config)).mapError (⟨scope, path, ·⟩)

/-- The settings of a project. -/
def load (disk : Files.Disk) (everywhere : Option Files.Path) (root : Files.Path) :
    Except Error Json.Members := do
  let config ← match everywhere with
    | some path => addFile disk defaults .everywhere path
    | none => pure defaults
  addFile disk config .project (Project.settingsFile root)

theorem lookup_insert_self (members : Json.Members) (key : String) (value : Json) :
    (members.insert key value).lookup key = some value := by
  simp [Json.Members.lookup_insert]

theorem lookup_merge_of_not_mem (base : Json.Members) (later : List (String × Json)) (key : String)
    (absent : ∀ member ∈ later, member.1 ≠ key) : (merge base later).lookup key = base.lookup key := by
  induction later generalizing base with
  | nil => rfl
  | cons member rest ih =>
    rw [merge, ih _ fun m found => absent m (List.mem_cons_of_mem _ found)]
    obtain ⟨name, value⟩ := member
    have far : name ≠ key := absent (name, value) List.mem_cons_self
    rw [mergeMember, Json.Members.lookup_insert, if_neg far]

/-- What is found under a name that the later object has once: its value over the earlier one. -/
theorem lookup_merge (base front : Json.Members) (key : String) (value : Json)
    (rest : List (String × Json)) (before : ∀ member ∈ front, member.1 ≠ key)
    (behind : ∀ member ∈ rest, member.1 ≠ key) :
    (merge base (front ++ (key, value) :: rest)).lookup key =
      some (mergeValue (base.lookup key) value) := by
  induction front generalizing base with
  | nil =>
    rw [List.nil_append, merge, lookup_merge_of_not_mem _ _ _ behind, mergeMember,
      lookup_insert_self]
  | cons member more ih =>
    obtain ⟨name, other⟩ := member
    have far : name ≠ key := before (name, other) List.mem_cons_self
    rw [List.cons_append, merge, ih _ fun m found => before m (List.mem_cons_of_mem _ found),
      mergeMember, Json.Members.lookup_insert, if_neg far]

end Retouch.Config
