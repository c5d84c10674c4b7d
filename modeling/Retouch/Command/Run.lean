import Retouch.Command.Options
import Retouch.Config
import Retouch.Project.History
import Retouch.Style.Reader
import Retouch.Style.Build
import Retouch.Text.Digit
import Retouch.Wire.Style

/-!
# The command line

The commands of the program: its version, a reader for single values, the history of a project, undoing a
transform, and the server for a project. A command answers with texts and a code; the server it asks for
is only described here. In machine mode all data is written on single lines.
-/
namespace Retouch.Command

def version : String := "0.1.0"

/-- What a server is started with. -/
structure Server where
  root : Files.Path
  host : Json
  port : Json
  watch : Bool
  settings : Settings

/-- A fault that ends a command without a word. -/
inductive Crash where
  | project (e : ProjectError)
  | unwritable (e : Style.WriteError)
  | config (e : Config.Error)
  deriving Repr

def Crash.message : Crash → String
  | .project e => e.message
  | .unwritable e => e.message
  | .config e => e.message

/-- What a command leaves behind. -/
structure Outcome where
  exitCode : Nat := 0
  output : String := ""
  errors : String := ""
  crash : Option Crash := none
  server : Option Server := none

/-- Where a command is given: the files it can see, the file of settings for all projects, and whether
machine mode was asked for beforehand. -/
structure Surroundings where
  disk : Files.Disk
  userFile : Option Files.Path := none
  machine : Bool := false

/-- The outcome of a command line that is none. -/
def misuse : Outcome := { exitCode := 2 }

def crashed (crash : Crash) : Outcome := { exitCode := 1, crash := some crash }

def line (text : String) : String := text ++ "\n"

def printed (text : String) : Outcome := { output := line text }

def jsonText (machine : Bool) (value : Json) : String :=
  if machine then value.writeCompact else value.writeIndented 0

/-- Drops the marks of styles: small letters and blanks between brackets. -/
def withoutMarks : Nat → List Char → List Char
  | 0, cs => cs
  | _ + 1, [] => []
  | fuel + 1, c :: rest =>
    let isMark (c : Char) : Bool := ('a' ≤ c && c ≤ 'z') || c = ' '
    if c = '[' then
      let body := if rest.head? = some '/' then rest.drop 1 else rest
      match body.span isMark with
      | (_ :: _, ']' :: after) => withoutMarks fuel after
      | _ => c :: withoutMarks fuel rest
    else c :: withoutMarks fuel rest

def plainLine (text : String) : String :=
  line (String.ofList (Text.trim (withoutMarks text.length text.toList)))

/-- An error, as a line or as an object. -/
def failed (machine : Bool) (code message : String) (input : Option String) : Outcome :=
  if machine then
    let members : Json.Members := [("status", .str "error"), ("code", .str code),
      ("message", .str message)] ++ (input.toList.filter (· ≠ "")).map fun s => ("input", .str s)
    { exitCode := 1, output := line (Json.obj members).writeCompact }
  else { exitCode := 1, errors := line ("Error: " ++ message) }

def folderForm : OptionForm :=
  { key := "folder", names := ["--project-directory", "-d"], takesValue := true }

def jsonForm : OptionForm := { key := "json", names := ["--json"] }

def helpForm : OptionForm := { key := "help", names := ["--help"] }

/-- The folder that is named, or the working folder; files are no folders. -/
def folderOf (disk : Files.Disk) (words : Words) (required : Bool) : Option Files.Path :=
  let path := Files.Path.ofText ((words.text? "folder").getD ".")
  let resolved := (Files.Path.join ⟨true, disk.home⟩ path).normal
  if words.text? "folder" = some "" then if required then none else some resolved
  else match disk.find? path with
    | .ok (some .folder) => some resolved
    | .ok (some (.file _)) => none
    | .ok none => if required then none else some resolved
    | .error _ => if required then none else some resolved

/-- A number that is given as an option; nothing when it is no number. -/
def number? (words : Words) (key : String) : Option (Option Int) :=
  match words.text? key with
  | none => some none
  | some text => (Text.integer? text.toList).map some

/-! ## Commands -/

/-- What becomes of a command line: a misused one, one that asks for help, or one that runs. -/
def withWords (forms : List OptionForm) (count : Nat) (words : List String)
    (run : Words → Outcome × Files.Disk) (disk : Files.Disk) : Outcome × Files.Disk :=
  match sortWords (helpForm :: forms) false words with
  | none => (misuse, disk)
  | some words =>
    if words.isSet "help" then ({}, disk)
    else if words.others.length ≠ count then (misuse, disk)
    else run words

def parseValue (machine : Bool) (words : Words) : Outcome :=
  match words.others with
  | [property, text] =>
    let value := Style.Value.parse property text
    match value.text with
    | .error e => crashed (.unwritable e)
    | .ok written =>
      if machine || words.isSet "json" then
        printed (jsonText machine (.obj [("property", .str property), ("value", value.toJson),
          ("serialized", .str written)]))
      else {}
  | _ => misuse

/-- A record, as it is listed. -/
def listed (members : Json.Members) : Json :=
  let member (name key : String) (default : Json) := (name, (members.lookup key).getD default)
  .obj [member "id" Project.idKey .null, member "timestamp" "timestamp" .null,
    member "type" "transform_type" .null, member "requestId" "request_id" .null,
    member "files" "files" (.arr [])]

/-- The number of records that are listed unless another one is given. -/
def listLimit : Int := 20

def history (machine : Bool) (disk : Files.Disk) (words : Words) : Outcome × Files.Disk :=
  match number? words "limit", number? words "keep", folderOf disk words false with
  | some limit, some keep, some root =>
    let project : Project := { root, disk }
    let json := machine || words.isSet "json"
    if words.isSet "clear" then
      match project.perform (Project.clearHistory (keep.getD 0)) with
      | (.error e, after) => (crashed (.project e), after.disk)
      | (.ok count, after) =>
        let shown := if json then line (jsonText machine (.obj [("deleted", .int count)]))
          else line s!"Deleted {count} transform(s) from history"
        ({ output := shown }, after.disk)
    else
      match project.perform (Project.history (some (limit.getD listLimit))) with
      | (.error e, after) => (crashed (.project e), after.disk)
      | (.ok records, after) =>
        let shown := if json then line (jsonText machine (.arr (records.map listed)))
          else if records.isEmpty then line "No transforms recorded." else ""
        ({ output := shown }, after.disk)
  | _, _, _ => (misuse, disk)

def undo (machine : Bool) (disk : Files.Disk) (words : Words) : Outcome × Files.Disk :=
  match words.others, folderOf disk words false with
  | [id], some root =>
    let project : Project := { root, disk }
    match project.perform (Project.undo id) with
    | (.error e, after) => (crashed (.project e), after.disk)
    | (.ok done, after) =>
      let exitCode := if done.success then 0 else 1
      let outcome : Outcome :=
        if machine || words.isSet "json" then
          { output := line (jsonText machine (.obj [("success", .bool done.success),
              ("restored", .arr (done.applied.map .str)), ("errors", .arr (done.errors.map .str))])) }
        else if done.success then
          { output := String.join (done.applied.map fun file => line ("Restored " ++ file)) }
        else { errors := String.join (done.errors.map fun e => line ("Error: " ++ e)) }
      ({ outcome with exitCode }, after.disk)
  | _, _ => (misuse, disk)

/-- The value that is given, or the one that is configured. -/
def orConfigured (given : Json) (config : Json.Members) (key : String) : Json :=
  if given.isTruthy then given else Config.get config key .null

def serve (machine : Bool) (around : Surroundings) (words : Words) : Outcome :=
  match number? words "port", folderOf around.disk words true with
  | some port, some root =>
    match Config.load around.disk around.userFile root with
    | .error e =>
      if e.isTooDeep then crashed (.config e) else failed machine "CONFIG_ERROR" e.message none
    | .ok config =>
      let host := orConfigured (.str ((words.text? "host").getD "")) config "server.host"
      let port := orConfigured (.int (port.getD 0)) config "server.port"
      let watch := match words.find? "watch" with
        | some given => given == .yes
        | none => (Config.get config "watcher.enabled" (.bool true)).isTruthy
      let settings : Settings := {
        backups := (Config.get config "mutation.backup_enabled" (.bool false)).isTruthy
        history := (Config.get config "mutation.history_enabled" (.bool true)).isTruthy }
      let address := "ws://" ++ host.plainText ++ ":" ++ port.plainText ++ "/ws"
      { output := plainLine ("Alara dev server on " ++ address) ++
          line ("Project directory: " ++ root.toText)
        server := some { root, host, port, watch, settings } }
  | _, _ => misuse

/-- The options of a command, and how many other words it takes. -/
def formsOf? : String → Option (List OptionForm × Nat)
  | "version" => some ([], 0)
  | "parse-value" => some ([jsonForm], 2)
  | "history" => some ([{ key := "limit", names := ["--limit", "-n"], takesValue := true }, folderForm,
      jsonForm, { key := "clear", names := ["--clear"] },
      { key := "keep", names := ["--keep"], takesValue := true }], 0)
  | "undo" => some ([folderForm, jsonForm], 1)
  | "dev" => some ([{ key := "port", names := ["--port", "-p"], takesValue := true },
      { key := "host", names := ["--host"], takesValue := true }, folderForm,
      { key := "watch", names := ["--watch"], contrary := ["--no-watch"] }], 0)
  | _ => none

/-- Runs a command of a name with its words. -/
def runNamed (around : Surroundings) (name : String) (words : List String) : Outcome × Files.Disk :=
  let disk := around.disk
  let machine := around.machine
  match formsOf? name with
  | none => (misuse, disk)
  | some (forms, count) =>
    withWords forms count words (fun words =>
      match name with
      | "version" => (printed ("Alara v" ++ version), disk)
      | "parse-value" => (parseValue machine words, disk)
      | "history" => history machine disk words
      | "undo" => undo machine disk words
      | _ => (serve machine around words, disk)) disk

/-- The options that stand before the name of a command. -/
def commonForms : List OptionForm := [helpForm, { key := "machine", names := ["--machine", "-m"] },
  { key := "verbose", names := ["--verbose", "-v"] }]

/-- Runs a command line; gives its outcome, and the files afterwards. -/
def run (around : Surroundings) (words : List String) : Outcome × Files.Disk :=
  match sortWords commonForms true words with
  | none => (misuse, around.disk)
  | some given =>
    if given.isSet "help" then ({}, around.disk)
    else match given.others with
      | [] => (misuse, around.disk)
      | name :: words =>
        runNamed { around with machine := around.machine || given.isSet "machine" } name words

/-- The folder that a command line names, if it names one. -/
def namedFolder? (words : List String) : Option String := do
  let given ← sortWords commonForms true words
  let (forms, _) ← formsOf? (given.others.headD "")
  let given ← sortWords (helpForm :: forms) false given.others.tail
  given.text? folderForm.key

end Retouch.Command
