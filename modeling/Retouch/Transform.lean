import Retouch.Locator
import Retouch.Style.Value
import Retouch.Json.Basic

/-!
# Transforms

A transform is one change that a page asks its server to make in the sources: to set, add or remove
a declaration of a style rule, or to replace the text of an element. A change says what it expects to
find, so that it can be refused when the source has changed meanwhile.
-/
namespace Retouch

inductive TransformKind where
  | cssUpdate
  | cssAdd
  | cssRemove
  | textUpdate
  deriving DecidableEq, Repr

namespace TransformKind

def name : TransformKind → String
  | .cssUpdate => "css-update"
  | .cssAdd => "css-add"
  | .cssRemove => "css-remove"
  | .textUpdate => "text-update"

def all : List TransformKind := [.cssUpdate, .cssAdd, .cssRemove, .textUpdate]

def ofName? (name : String) : Option TransformKind := all.find? fun kind => kind.name == name

theorem ofName?_name (kind : TransformKind) : ofName? kind.name = some kind := by
  cases kind <;> decide

end TransformKind

inductive Change where
  | cssUpdate (property : String) (prior new : Style.Value)
  | cssAdd (property : String) (prior : Option Style.Value) (new : Style.Value)
  | cssRemove (property : String) (prior : Style.Value)
  | textUpdate (prior new : String)
  deriving Repr, Inhabited

def Change.kind : Change → TransformKind
  | .cssUpdate .. => .cssUpdate
  | .cssAdd .. => .cssAdd
  | .cssRemove .. => .cssRemove
  | .textUpdate .. => .textUpdate

/-- A change with the place it is meant for, under an id that its answer will carry. -/
structure Request where
  id : String
  target : SourceLocator
  change : Change
  deriving Repr

/-- The place and the change that revert a transform. -/
structure UndoData where
  target : SourceLocator
  change : Change
  deriving Repr

/-- Why a transform was not applied. -/
inductive ErrorCode where
  | selectorNotFound
  | fileNotFound
  | parseError
  | validationError
  | writeError
  | elementNotFound
  | internalError
  deriving DecidableEq, Repr

namespace ErrorCode

def name : ErrorCode → String
  | .selectorNotFound => "SELECTOR_NOT_FOUND"
  | .fileNotFound => "FILE_NOT_FOUND"
  | .parseError => "PARSE_ERROR"
  | .validationError => "VALIDATION_ERROR"
  | .writeError => "WRITE_ERROR"
  | .elementNotFound => "ELEMENT_NOT_FOUND"
  | .internalError => "INTERNAL_ERROR"

def all : List ErrorCode := [.selectorNotFound, .fileNotFound, .parseError, .validationError,
  .writeError, .elementNotFound, .internalError]

def ofName? (name : String) : Option ErrorCode := all.find? fun code => code.name == name

theorem ofName?_name (code : ErrorCode) : ofName? code.name = some code := by
  cases code <;> decide

end ErrorCode

structure TransformError where
  code : ErrorCode
  message : String
  details : Option Json.Members
  deriving Repr

/-- The answer to a transform. -/
structure TransformResult where
  success : Bool
  requestId : String
  affectedFiles : Option (List String) := none
  error : Option TransformError := none
  undoData : Option UndoData := none
  deriving Repr

def TransformResult.failed (requestId : String) (error : TransformError) : TransformResult :=
  { success := false, requestId, error := some error }

end Retouch
