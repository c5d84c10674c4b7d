import Retouch.Wire.Style
import Retouch.Transform

/-!
# Transforms on the wire

Requests, answers and what reverts them, as objects. Some members have had other names; those are
still read, and the present ones are written.
-/
namespace Retouch.Wire

def locatorMembers (members : Json.Members) : Checked SourceLocator :=
  SourceLocator.mk <$> field members ["file"] filledString <*>
    field members ["lineNumber", "line_number"] positive <*>
    field members ["column"] positive <*>
    fieldOr members ["styleFile", "cssFile", "style_file"] "" string <*>
    fieldOr members ["selectors"] [] (tuple string)

def locator : Json → Checked SourceLocator := model "SourceLocator" locatorMembers

def priorNames : List String := ["priorValue", "computedValue", "prior_value"]
def newNames : List String := ["newValue", "new_value"]

def changeMembers (kind : TransformKind) (members : Json.Members) : Checked Change :=
  match kind with
  | .cssUpdate => Change.cssUpdate <$> field members ["property"] filledString <*>
      field members priorNames value <*> field members newNames value
  | .cssAdd => Change.cssAdd <$> field members ["property"] filledString <*>
      fieldOr members priorNames none (optional value) <*> field members newNames value
  | .cssRemove => Change.cssRemove <$> field members ["property"] filledString <*>
      field members priorNames value
  | .textUpdate => Change.textUpdate <$> field members ["originalText", "original_text"] string <*>
      field members ["newText", "new_text"] string

/-- What the change of a kind is called. -/
def changeTitle : TransformKind → String
  | .cssUpdate => "CssUpdateChange"
  | .cssAdd => "CssAddChange"
  | .cssRemove => "CssRemoveChange"
  | .textUpdate => "TextUpdateChange"

def requestTitle : TransformKind → String
  | .cssUpdate => "CssUpdateRequest"
  | .cssAdd => "CssAddRequest"
  | .cssRemove => "CssRemoveRequest"
  | .textUpdate => "TextUpdateRequest"

def change (kind : TransformKind) : Json → Checked Change :=
  model (changeTitle kind) (changeMembers kind)

/-- A name of one kind of transform, and of no other. -/
def exactly (kind : TransformKind) : Json → Checked Unit :=
  oneOf [kind.name] fun name => if name = kind.name then some () else none

def requestMembers (kind : TransformKind) (members : Json.Members) : Checked Request :=
  (fun id _ target change => Request.mk id target change) <$> field members ["id"] filledString <*>
    fieldOr members ["type"] () (exactly kind) <*>
    field members ["target"] locator <*>
    field members ["change"] (change kind)

/-- A request of a known kind. -/
def request (kind : TransformKind) : Json → Checked Request :=
  model (requestTitle kind) (requestMembers kind)

def kindNames : List String := TransformKind.all.map TransformKind.name

/-- A request of the kind that it names itself. -/
def anyRequest (input : Json) : Checked Request :=
  match input with
  | .obj members =>
    match members.lookup "type" with
    | none => .fail .noTag input
    | some tag =>
      match tag.asString?.bind TransformKind.ofName? with
      | some kind => (requestMembers kind members).under (.name kind.name)
      | none => .fail (.unknownTag tag.plainText kindNames) input
  | _ => .fail .notObject input

def anyRequestTitle : String :=
  "tagged-union[CssUpdateRequest,CssAddRequest,CssRemoveRequest,TextUpdateRequest]"

def kind : Json → Checked TransformKind := oneOf kindNames TransformKind.ofName?

/-- A change of any kind: the faults are those of all kinds, unless one fits. -/
def anyChange (input : Json) : Checked Unit :=
  let tried := TransformKind.all.map fun k => (change k input).under (.name (changeTitle k))
  if tried.any fun found => found.toFaults.isEmpty then .ok ()
  else .faults (tried.flatMap Checked.toFaults)

/-- Under a kind that is not known no change can be read, but its faults are found. -/
def unknownUndo (members : Json.Members) : Checked UndoData :=
  (fun _ target _ => UndoData.mk target default) <$> field members ["type"] kind <*>
    field members ["target"] locator <*>
    field members ["revertChange", "revert_change"] anyChange

/-- A kind that cannot be looked up, because it is a list or an object. -/
def lookupFault? : Json → Option String
  | .arr _ => some "list"
  | .obj _ => some "dict"
  | _ => none

/-- What reverts a transform. Its kind decides how the change is read; the faults of the change then
come alone, and without its name. -/
def undoMembers (members : Json.Members) : Checked UndoData :=
  let found := (members.lookup "type").bind fun tag => tag.asString?.bind TransformKind.ofName?
  let raw := match members.lookup "revertChange" with
    | some raw => some raw
    | none => members.lookup "revert_change"
  match found, raw with
  | some k, some (.obj changed) =>
    (changeMembers k changed).andThen fun read =>
      let normal := (members.erase "revert_change").insert "revertChange" (.obj changed)
      (fun target => UndoData.mk target read) <$> field normal ["target"] locator
  | _, _ => unknownUndo members

def undoData : Json → Checked UndoData := model "UndoData" undoMembers

def errorCode : Json → Checked ErrorCode :=
  oneOf (ErrorCode.all.map ErrorCode.name) ErrorCode.ofName?

def transformError : Json → Checked TransformError :=
  model "TransformError" fun members =>
    TransformError.mk <$> field members ["code"] errorCode <*> field members ["message"] string <*>
      fieldOr members ["details"] none (optional dictionary)

def successMustListFiles : String := "successful results must list affectedFiles"

def transformResult : Json → Checked TransformResult :=
  model "TransformResult" fun members =>
    (TransformResult.mk <$> field members ["success"] bool <*>
      field members ["requestId", "request_id"] string <*>
      fieldOr members ["affectedFiles", "affected_files"] none (optional (list string)) <*>
      fieldOr members ["error"] none (optional transformError) <*>
      fieldOr members ["undoData", "undo_data"] none (optional undoData)).andThen fun result =>
        if result.success && result.affectedFiles.isNone then
          .fail (.refused successMustListFiles) (.obj members)
        else .ok result

end Retouch.Wire

namespace Retouch

def strings (texts : List String) : Json := .arr (texts.map .str)

def SourceLocator.toJson (l : SourceLocator) : Json :=
  .obj [("file", .str l.file), ("lineNumber", .int l.line), ("column", .int l.column),
    ("styleFile", .str l.styleFile), ("selectors", strings l.selectors)]

def Change.toJson : Change → Json
  | .cssUpdate property prior new => .obj [("property", .str property),
      ("priorValue", prior.toJson), ("newValue", new.toJson)]
  | .cssAdd property prior new => .obj [("property", .str property),
      ("priorValue", (prior.map Style.Value.toJson).getD .null), ("newValue", new.toJson)]
  | .cssRemove property prior => .obj [("property", .str property), ("priorValue", prior.toJson)]
  | .textUpdate prior new => .obj [("originalText", .str prior), ("newText", .str new)]

def Request.members (r : Request) : Json.Members :=
  [("id", .str r.id), ("type", .str r.change.kind.name), ("target", r.target.toJson),
    ("change", r.change.toJson)]

def Request.toJson (r : Request) : Json := .obj r.members

def UndoData.toJson (u : UndoData) : Json :=
  .obj [("type", .str u.change.kind.name), ("target", u.target.toJson),
    ("revertChange", u.change.toJson)]

def TransformError.toJson (e : TransformError) : Json :=
  .obj ([("code", .str e.code.name), ("message", .str e.message)] ++
    match e.details with
    | some details => [("details", .obj details)]
    | none => [])

/-- The members of an answer; what is nothing is left out. -/
def TransformResult.members (r : TransformResult) : Json.Members :=
  [("success", .bool r.success), ("requestId", .str r.requestId)] ++
    (match r.affectedFiles with
      | some files => [("affectedFiles", strings files)]
      | none => []) ++
    (match r.error with
      | some e => [("error", e.toJson)]
      | none => []) ++
    match r.undoData with
    | some undo => [("undoData", undo.toJson)]
    | none => []

def TransformResult.toJson (r : TransformResult) : Json := .obj r.members

end Retouch
