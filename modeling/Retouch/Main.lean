import Retouch.Command.Run
import Retouch.Files.Changes
import Retouch.Service.Connection
import Retouch.Service.Watcher
import Std.Time

/-!
# The program

Runs a command line on the files of the working folder and of the folder that it names, and writes down
what has changed. A server takes its frames from the lines of the input and answers each on a line of the
output; whoever listens on its address joins these lines to a page.
-/
namespace Retouch.Main

/-- Folders that hold no sources of a project. -/
def passedFolders : List String := ["node_modules", ".git"]

/-- A file that lies somewhere, and when it was written. -/
structure Found where
  place : Files.Place
  written : IO.FS.SystemTime
  bytes : Text.Bytes

def textOf (place : Files.Place) : String := Files.Path.toText ⟨true, place⟩

/-- The folders and files below a folder, which is among them. -/
partial def findBelow (place : Files.Place) : IO (List Files.Place × List Found) := do
  let here := (← IO.currentDir) / textOf place
  let mut folders := [place]
  let mut files := []
  for entry in ← here.readDir do
    let inner := place ++ [entry.fileName]
    match ← entry.path.metadata.toBaseIO with
    | .error _ => pure ()
    | .ok data =>
      match data.type with
      | .dir =>
        unless passedFolders.contains entry.fileName do
          let (more, found) ← findBelow inner
          folders := folders ++ more
          files := files ++ found
      | .file => files := ⟨inner, data.modified, (← IO.FS.readBinFile entry.path).toList⟩ :: files
      | _ => pure ()
  return (folders, files)

/-- What can be seen below some folders; older files count as written earlier. -/
def readDisk (home : Files.Place) (roots : List Files.Place) : IO Files.Disk := do
  let mut disk : Files.Disk := { home }
  let mut files := []
  for root in roots do
    match ← (findBelow root).toBaseIO with
    | .error _ => pure ()
    | .ok (folders, found) =>
      for folder in folders do
        disk := (disk.makeFolders ⟨true, folder⟩).toOption.getD disk
      files := files ++ found
  for file in files.mergeSort fun a b => (compare a.written b.written).isLE do
    disk := disk.put file.place file.bytes
  return disk

/-- Writes down what has changed; a file takes the place of the one before as a whole. -/
def writeChanges (before after : Files.Disk) : IO Unit := do
  for (place, bytes) in before.changes after [] do
    match bytes with
    | none => IO.FS.removeFile (textOf place)
    | some bytes =>
      IO.FS.createDirAll (textOf place.dropLast)
      let draft := textOf (place.dropLast ++ ["." ++ place.getLastD "" ++ ".tmp"])
      IO.FS.writeBinFile draft ⟨bytes.toArray⟩
      IO.FS.rename draft (textOf place)

/-- The present time, as records tell it. -/
def timeText : IO String := do
  return (← Std.Time.PlainDateTime.now).toLeanDateTimeString

/-- Forgets what was read of the files that others have changed. -/
def observe (watch : Bool) (watcher : Service.Watcher) (project : Project) (disk : Files.Disk) :
    Service.Watcher × Project :=
  let seen := { project with disk }
  if watch then
    watcher.touchAll seen ((project.disk.changes disk project.root.names).map fun (place, _) =>
      ⟨true, project.root.names ++ place⟩)
  else (watcher, seen)

/-- Answers frames until the input ends. -/
partial def serveFrames (watch : Bool) (watcher : Service.Watcher) (connection : Service.Connection)
    (project : Project) : IO Unit := do
  let frame ← (← IO.getStdin).getLine
  if frame.isEmpty then return
  let disk ← readDisk project.disk.home [project.root.names]
  let (watcher, project) := observe watch watcher project disk
  let (answer, connection, after) := connection.receive .standard frame.trimAsciiEnd.copy
    { project with now := ← timeText, recorded := Project.lastRecorded disk project.root }
  writeChanges disk after.disk
  match answer with
  | .ok text => IO.println text
  | .error _ => IO.eprintln "A frame was left without an answer"
  (← IO.getStdout).flush
  serveFrames watch watcher connection after

/-- Greets a page and answers it. -/
def serve (server : Command.Server) (disk : Files.Disk) : IO Unit := do
  IO.println Service.Message.connected.toText
  (← IO.getStdout).flush
  serveFrames server.watch {} {} { root := server.root, settings := server.settings, disk }

/-- Whether machine mode is asked for by the surroundings. -/
def machineMode : IO Bool := do
  let asked := (← IO.getEnv "ALARA_MACHINE_MODE").getD ""
  return ["1", "true", "yes"].contains asked.toLower

def usage : String := "Usage: alara [--machine] version | parse-value | history | undo | dev"

def run (words : List String) : IO UInt32 := do
  let home := (Files.Path.ofText (← IO.currentDir).toString).names
  let named := (Files.Path.join ⟨true, home⟩
    (.ofText ((Command.namedFolder? words).getD "."))).normal.names
  let user := (← IO.getEnv "HOME").map fun home => Project.toolFolder (.ofText home)
  let disk ← readDisk home ((home :: named :: user.toList.map (·.names)).eraseDups)
  let around : Command.Surroundings :=
    { disk, userFile := user.map (·.child "config.json"), machine := ← machineMode }
  let (outcome, after) := Command.run around words
  writeChanges disk after
  if outcome.exitCode = 2 then IO.eprintln usage
  IO.print outcome.output
  IO.eprint outcome.errors
  if let some crash := outcome.crash then IO.eprintln crash.message
  if let some server := outcome.server then serve server after
  return outcome.exitCode.toUInt32

end Retouch.Main

/-- Runs the command line. -/
def main (words : List String) : IO UInt32 := Retouch.Main.run words
