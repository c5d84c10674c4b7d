import Retouch.Wire.Transform

/-!
# Forms by name

Every form of data that goes over the wire has a name. Data of a form is read, which checks it and fills in
what may be left out, and written again.
-/
namespace Retouch.Wire

/-- Why data is not of a form. -/
inductive SchemaError where
  | unknownForm
  /-- The type is a list or an object, which no type can be. -/
  | unusableType (kind : String)
  | rejected (r : Rejection)
  deriving Repr

/-- What was read, written again. -/
def writtenBack {α : Type} (title : String) (found : Checked α) (write : α → Json) :
    Except SchemaError Json :=
  ((found.result title).mapError .rejected).map write

/-- The change of a kind of transforms, or the request for it. -/
def ofKind (isChange : Bool) (kind : TransformKind) (data : Json) : Except SchemaError Json :=
  if isChange then writtenBack (changeTitle kind) (change kind data) Change.toJson
  else writtenBack (requestTitle kind) (request kind data) Request.toJson

/-- Goes on when the type of what reverts a transform can be looked up, which comes before every check. -/
def lookingUp (undo : Option Json) (found : Except SchemaError Json) : Except SchemaError Json :=
  match (undo.bind (·.get? "type")).bind lookupFault? with
  | some kind => .error (.unusableType kind)
  | none => found

/-- Data of what reverts a transform. -/
def ofUndo (data : Json) : Except SchemaError Json :=
  lookingUp (some data) (writtenBack "UndoData" (undoData data) UndoData.toJson)

/-- Data of the outcome of a transform, with what reverts it inside. -/
def ofResult (data : Json) : Except SchemaError Json :=
  lookingUp ((data.get? "undoData").or (data.get? "undo_data"))
    (writtenBack "TransformResult" (transformResult data) TransformResult.toJson)

/-- Data of the form of a name. -/
def ofForm (form : String) (data : Json) : Except SchemaError Json :=
  match form with
  | "style" => writtenBack valueTitle (value data) Style.Value.toJson
  | "request" => writtenBack anyRequestTitle (anyRequest data) Request.toJson
  | "locator" => writtenBack "SourceLocator" (locator data) SourceLocator.toJson
  | "undo" => ofUndo data
  | "result" => ofResult data
  | "error" => writtenBack "TransformError" (transformError data) TransformError.toJson
  | other =>
    let parts := other.splitOn ":"
    match TransformKind.ofName? (parts.getLastD "") with
    | none => .error .unknownForm
    | some kind => ofKind (parts.length = 2 && parts.head? = some "change") kind data

end Retouch.Wire
