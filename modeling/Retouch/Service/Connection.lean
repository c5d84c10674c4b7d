import Retouch.Project.Edit
import Retouch.Wire.Transform

/-!
# Connections and handlers

A page and its server send each other frames, each of which holds an object. The server answers a
greeting with a greeting and a transform with its result; a frame that is no object is answered by an
error, and any other one is sent back as it came. A registry holds one handler for each type of transform.
It checks what a request consists of, runs the handler, and turns whatever goes wrong into an answer. Two
faults have no answer: a type that cannot be looked up, and a refusal of a handler that answers have no
word for.
-/
namespace Retouch.Service

/-- Runs the transforms of one type. -/
structure Handler where
  type : String
  /-- Checks a request; what passes can be run. -/
  prepare : Json → Except Wire.Rejection (Project.Action TransformResult)

/-- A type that two handlers would have. -/
structure DuplicateHandler where
  type : String
  deriving DecidableEq, Repr

def DuplicateHandler.message (e : DuplicateHandler) : String :=
  "A handler for transform type '" ++ e.type ++ "' is already registered"

/-- Handlers in the order in which they were registered. -/
structure Registry where
  handlers : List Handler := []

/-- A fault that has no answer. -/
inductive Escape where
  /-- The type is a list or an object. -/
  | unusableType (kind : String)
  | unreportable (r : Wire.Rejection)
  deriving Repr

namespace Registry

def find? (registry : Registry) (type : String) : Option Handler :=
  registry.handlers.find? fun handler => handler.type == type

def types (registry : Registry) : List String := registry.handlers.map Handler.type

def register (registry : Registry) (handler : Handler) : Except DuplicateHandler Registry :=
  match registry.find? handler.type with
  | some _ => .error ⟨handler.type⟩
  | none => .ok { registry with handlers := registry.handlers ++ [handler] }

/-- The handler of a kind of transform. -/
def editHandler (kind : TransformKind) : Handler where
  type := kind.name
  prepare input := ((Wire.request kind input).result (Wire.requestTitle kind)).map Project.apply

/-- The handlers of all kinds of transforms. -/
def standard : Registry where
  handlers := [.textUpdate, .cssUpdate, .cssAdd, .cssRemove].map editHandler

/-- The id of a request, as far as it has one. -/
def requestId (input : Json) : String := ((input.get? "id").bind Json.asString?).getD ""

def rejectionDetails (r : Wire.Rejection) : Json.Members :=
  [("errors", .arr (r.faults.map Wire.Fault.toJson))]

/-- The answer to an action that was not completed. -/
def ofError (id : String) : ProjectError → Except Escape TransformResult
  | .refused e => .ok (.failed id e)
  | .unreportable r => .error (.unreportable r)
  | e => .ok (.failed id ⟨.internalError, "Transform failed: " ++ e.message, none⟩)

def failedCheck (id : String) (r : Wire.Rejection) : TransformResult :=
  .failed id ⟨.validationError, "Invalid request: " ++ r.headline, some (rejectionDetails r)⟩

def unknownType (id : String) (type : Json) : TransformResult :=
  .failed id ⟨.validationError, "Unknown transform type: " ++ type.plainText, none⟩

/-- Checks and runs a request of a type. -/
def execute (registry : Registry) (type input : Json) (project : Project) :
    Except Escape TransformResult × Project :=
  let id := requestId input
  match Wire.lookupFault? type with
  | some kind => (.error (.unusableType kind), project)
  | none =>
    match type.asString?.bind registry.find? with
    | none => (.ok (unknownType id type), project)
    | some handler =>
      match handler.prepare input with
      | .error r => (.ok (failedCheck id r), project)
      | .ok action =>
        match project.perform action with
        | (.ok result, project) => (.ok result, project)
        | (.error e, project) => (ofError id e, project)

end Registry

/-- What is wrong with a frame. -/
inductive FrameError where
  | unreadable (e : Json.ReadError)
  | notObject
  deriving DecidableEq, Repr

def FrameError.message : FrameError → String
  | .unreadable e => e.message
  | .notObject => "Message must be a JSON object"

/-- The object in a frame. -/
def readFrame (frame : String) : Except FrameError Json.Members :=
  match Json.read frame with
  | .ok (.obj members) => .ok members
  | .ok _ => .error .notObject
  | .error e => .error (.unreadable e)

/-- Whether an object asks for a transform. -/
def isTransform (message : Json.Members) : Bool :=
  message.says "action" "transform" && message.has "type" && message.has "id"

/-- The object that asks to revert a transform, from what its answer says about that. -/
def revertRequest (id undo : Json) : Json :=
  let member (name : String) : Json := (undo.get? name).getD .null
  .obj [("action", .str "transform"), ("id", id), ("type", member "type"), ("target", member "target"),
    ("change", member "revertChange")]

/-- What a server sends. -/
inductive Message where
  | connected
  | result (r : TransformResult)
  | pong (requestId : Json)
  | error (reason : String)

def Message.toJson : Message → Json
  | .connected => .obj [("type", .str "connected")]
  | .result r => .obj (("type", .str "transform-result") :: r.members)
  | .pong id => .obj [("type", .str "pong"), ("requestId", id)]
  | .error reason => .obj [("type", .str "error"), ("message", .str reason)]

def Message.toText (m : Message) : String := m.toJson.write

/-- A fault for which a frame is left without an answer. -/
inductive FrameEscape where
  /-- The values of the frame nest too deep. -/
  | tooDeep (e : Json.ReadError)
  | transform (e : Escape)
  deriving Repr

/-- A connection to a page: how many frames it has taken. -/
structure Connection where
  handled : Nat := 0
  deriving Repr

/-- The text that answers a frame. -/
def answerFrame (registry : Registry) (frame : String) (project : Project) :
    Except FrameEscape String × Project :=
  match readFrame frame with
  | .error (.unreadable e) =>
    if e.fault = .tooDeep then (.error (.tooDeep e), project)
    else (.ok (Message.error ("Invalid message: " ++ e.message)).toText, project)
  | .error e => (.ok (Message.error ("Invalid message: " ++ e.message)).toText, project)
  | .ok message =>
    if message.says "action" "ping" then
      (.ok (Message.pong ((message.lookup "id").getD .null)).toText, project)
    else if isTransform message then
      let type := (message.lookup "type").getD .null
      match registry.execute type (.obj message) project with
      | (.ok result, project) => (.ok (Message.result result).toText, project)
      | (.error e, project) => (.error (.transform e), project)
    else (.ok frame, project)

/-- Takes a frame. -/
def Connection.receive (connection : Connection) (registry : Registry) (frame : String)
    (project : Project) : Except FrameEscape String × Connection × Project :=
  let (answer, project) := answerFrame registry frame project
  (answer, { connection with handled := connection.handled + 1 }, project)

end Retouch.Service
