import Retouch.Command.Run
import Retouch.Project.Edit
import Retouch.Service.Http
import Retouch.Wire.Transform

/-!
# Outcomes on the wire

What came of an edit, of undoing a transform, of a plain request, and what a server is started with, as
objects.
-/
namespace Retouch

def Project.Edited.toJson (e : Project.Edited) : Json :=
  .obj [("affected_files", strings e.affectedFiles), ("content", .str (String.ofList e.content)),
    ("previous_value", (e.previous.map Style.Value.toJson).getD .null),
    ("recorded", .bool e.transaction.isSome)]

def Project.Undone.toJson (u : Project.Undone) : Json :=
  .obj [("success", .bool u.success), ("applied", strings u.applied), ("errors", strings u.errors)]

/-- A response with the headers that every response has. -/
def Service.Response.toJson (r : Service.Response) : Json :=
  .obj [("status", .int r.status), ("body", (r.body.map Json.str).getD .null),
    ("cors", .obj (Service.corsHeaders.map fun (name, text) => (name, .str text)))]

def Command.Server.toJson (s : Command.Server) : Json :=
  .obj [("project_dir", .str s.root.toText), ("host", s.host), ("port", s.port), ("watch", .bool s.watch),
    ("engine_config", .obj [("backup_enabled", .bool s.settings.backups),
      ("history_enabled", .bool s.settings.history)])]

end Retouch
