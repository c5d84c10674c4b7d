import Retouch.Client.Basic
import Retouch.Wire.Transform

/-!
# Clients on the wire

What a client knows, as an object. Elements are told by the names that whoever looks at the client has for
them.
-/
namespace Retouch.Client

/-- Names of elements. -/
abbrev Names := List (String × ElementId)

def Names.nameOf (names : Names) (id : ElementId) : Json :=
  match names.find? fun entry => entry.2 = id with
  | some (name, _) => .str name
  | none => .null

def nullable {α : Type} (write : α → Json) (a : Option α) : Json := (a.map write).getD .null

def texts (table : Table String String) : Json := .obj (table.map fun (key, text) => (key, .str text))

def Edit.toJson (id : String) (e : Edit) : Json :=
  .obj [("id", .str id), ("type", .str e.type), ("target", e.target.toJson),
    ("timestamp", .real e.timestamp), ("status", .str e.outcome.name), ("error", e.error)]

def sessionJson (names : Names) (session : Option Session) : Json :=
  .obj [("is_editing", .bool session.isSome),
    ("element", nullable (fun s => names.nameOf s.element) session),
    ("original_text", .str ((session.map Session.prior).getD "")),
    ("oid", .str ((session.map Session.oid).getD ""))]

def rangeJson (names : Names) (tree : Tree) (range : Range) : Json :=
  let text := ((tree.textOf range.element).toList.take range.stop).drop range.start
  .arr [names.nameOf range.element, .int range.start, .int range.stop, .str (String.ofList text)]

/-- All that is known of the elements that have a name and are marked in some way. -/
def marksJson (names : Names) (tree : Tree) : Json.Members :=
  let named := names.filterMap fun (name, id) => (tree.get? id).map (name, ·)
  let editable := named.filter fun (_, e) => e.editable
  let marked := named.filter fun (_, e) => !e.dataset.isEmpty
  [("editable", .arr (editable.map fun (name, _) => .str name)),
    ("dataset", .obj (marked.map fun (name, e) => (name, texts e.dataset)))]

def connectionJson (client : Client) : Json.Members :=
  [("connection", .arr [.str client.status.name, nullable Json.str client.statusError]),
    ("attempts", .int client.channel.attempts), ("is_connected", .bool (isConnected client))]

def selectedJson (names : Names) (selected : Selected) : Json :=
  .obj [("element", names.nameOf selected.element),
    ("target", nullable SourceLocator.toJson selected.target)]

/-- What a client knows. -/
def snapshot (names : Names) (client : Client) : Json.Members :=
  connectionJson client ++ marksJson names client.tree ++
    [("selected", nullable (selectedJson names) client.selected),
      ("hovered", nullable names.nameOf client.hovered),
      ("text_edit", sessionJson names client.session),
      ("pending", .arr (client.edits.map fun (id, edit) => edit.toJson id)),
      ("timers", .arr (client.timers.map fun timer => .real timer.delay.toFloat)),
      ("focus", nullable names.nameOf client.focus),
      ("range", nullable (rangeJson names client.tree) client.range)]

end Retouch.Client
