import Retouch.Project.History

/-!
# Edits of a project

The edits of texts and declarations, from the locator of an element to the file on disk. An edit is
refused when the file, the element or the rule is not there, when it expects another content, or when a
sound file would be broken by it. What was written is kept as read, and the text before it is recorded.
-/
namespace Retouch.Project

/-- What an edit did. -/
structure Edited where
  affectedFiles : List String
  content : List Char
  previous : Option Style.Value := none
  transaction : Option String := none

def requireSound (before after : Bool) (file : String) : Action Unit :=
  if after && !before then refuse .parseError "Edit would introduce a syntax error" (naming file)
  else return ()

/-- Writes an edited text, keeps what it is read as, and records the text before. -/
def commit {α : Type} (file : String) (path : Files.Path) (before content : List Char) (parsed : α)
    (keep : Cached α → Cache → Cache) (kind : TransformKind) (requestId : String)
    (metadata : Json.Members) : Action Edited := do
  let (written, _) ← write path content (some before)
  modifyCache (keep ⟨written, parsed⟩)
  let transaction ←
    if (← get).settings.history then
      record { kind := kind.name, requestId, patches := [Patch.members ⟨path, before⟩], metadata }
    else pure none
  return { affectedFiles := [file], content := written, transaction }

/-! ## Markup -/

/-- The element at a place of a file. -/
def find (file : String) (line column : Int) : Action (Option Markup.Element) := do
  let (_, kept) ← loadDocument file
  lift .place (kept.parsed.find kept.text line column)

/-- The shown text of the element at a place of a file. -/
def readText (file : String) (line column : Int) : Action String := do
  match ← find file line column with
  | some element => return element.textContent
  | none => refuse .elementNotFound s!"No element found at {file}:{line}:{column}" none

def ofTextError : Markup.TextError → ProjectError
  | .refused e => .refused e
  | .undecodable e => .splice e
  | .place e => .place e

def keepDocument (path : Files.Path) (document : Cached Markup.Document) (cache : Cache) : Cache :=
  { cache with documents := Table.put cache.documents path document }

/-- Replaces the text of an element. -/
def updateText (target : SourceLocator) (prior new requestId : String) : Action Edited := do
  let (path, kept) ← loadDocument target.file
  let updated ← lift ofTextError
    (kept.parsed.updateText kept.text target.line target.column prior new)
  let document := Markup.Document.ofChars kept.parsed.language updated
  requireSound kept.parsed.hasError document.hasError target.file
  commit target.file path kept.text updated document (keepDocument path) .textUpdate requestId
    [("originalText", .str prior), ("newText", .str new)]

/-! ## Styles -/

/-- The selector of an edit is the last one, which is the most specific one. -/
def targetSelector (target : SourceLocator) : Action String :=
  match target.selectors.getLast? with
  | some selector => return selector
  | none => refuse .validationError "Target has no selectors" none

def keepSheet (path : Files.Path) (sheet : Cached Sheet) (cache : Cache) : Cache :=
  { cache with sheets := Table.put cache.sheets path sheet }

/-- The changed sheet, when the edit was made. -/
def ofOutcome {α : Type} (outcome : Sheet.Outcome α) : Action α :=
  match outcome.result with
  | .ok a => return a
  | .error (.refused e) => throw (.refused e)
  | .error (.broken e) => throw (.sheet e)

/-- Edits the sheet of a target. The sheet as it was read is changed by the edit itself; when the edit is
refused after all, it is forgotten. -/
def editSheet (target : SourceLocator) (kind : TransformKind) (requestId : String)
    (edit : Sheet → String → Sheet.Outcome (Option Style.Value)) : Action Edited := do
  let selector ← targetSelector target
  let file := target.styleFile
  let (path, kept) ← loadSheet file
  let outcome := edit kept.parsed selector
  let attempt : Action Edited := do
    modifyCache (keepSheet path ⟨kept.text, outcome.sheet⟩)
    let previous ← ofOutcome outcome
    requireSound kept.parsed.hasError outcome.sheet.hasError file
    let edited ← commit file path kept.text outcome.sheet.source outcome.sheet (keepSheet path) kind
      requestId [("selector", .str selector)]
    return { edited with previous }
  try attempt
  catch e =>
    if e matches .refused _ then modifyCache (·.drop path)
    throw e

def someResult {α : Type} (outcome : Sheet.Outcome α) : Sheet.Outcome (Option α) :=
  ⟨outcome.sheet, outcome.result.map some⟩

/-- What an edit of a declaration does with a sheet and the selector of a rule in it. -/
abbrev SheetEdit := Sheet → String → Sheet.Outcome (Option Style.Value)

def updating (property : String) (prior new : Style.Value) : SheetEdit := fun sheet selector =>
  someResult (sheet.updateDeclaration selector property prior new none)

def adding (property : String) (prior : Option Style.Value) (new : Style.Value) : SheetEdit :=
  fun sheet selector => sheet.addDeclaration selector property new prior none

def removing (property : String) (prior : Style.Value) : SheetEdit := fun sheet selector =>
  someResult (sheet.deleteDeclaration selector property prior none)

/-- Changes the value of a declaration. -/
def updateStyle (target : SourceLocator) (property : String) (prior new : Style.Value)
    (requestId : String) : Action Edited :=
  editSheet target .cssUpdate requestId (updating property prior new)

/-- Adds a declaration, or overwrites the one of the same property. -/
def addStyle (target : SourceLocator) (property : String) (prior : Option Style.Value)
    (new : Style.Value) (requestId : String) : Action Edited :=
  editSheet target .cssAdd requestId (adding property prior new)

/-- Removes a declaration. -/
def removeStyle (target : SourceLocator) (property : String) (prior : Style.Value)
    (requestId : String) : Action Edited :=
  editSheet target .cssRemove requestId (removing property prior)

/-! ## Requests -/

def withoutStyle (target : SourceLocator) : SourceLocator :=
  { target with styleFile := "", selectors := [] }

/-- The place and the change that revert an edit that was made. -/
def undoData (request : Request) (edited : Edited) : UndoData :=
  match request.change with
  | .textUpdate prior new => ⟨withoutStyle request.target, .textUpdate new prior⟩
  | .cssUpdate property prior new => ⟨request.target, .cssUpdate property new prior⟩
  | .cssAdd property _ new =>
    match edited.previous with
    | none => ⟨request.target, .cssRemove property new⟩
    | some previous => ⟨request.target, .cssUpdate property new previous⟩
  | .cssRemove property prior => ⟨request.target, .cssAdd property none prior⟩

/-- Makes the edit that a request asks for. -/
def edit (request : Request) : Action Edited :=
  match request.change with
  | .textUpdate prior new => updateText request.target prior new request.id
  | .cssUpdate property prior new => updateStyle request.target property prior new request.id
  | .cssAdd property prior new => addStyle request.target property prior new request.id
  | .cssRemove property prior => removeStyle request.target property prior request.id

/-- Makes the edit that a request asks for, and says how to revert it. -/
def apply (request : Request) : Action TransformResult := do
  let edited ← edit request
  return {
    success := true
    requestId := request.id
    affectedFiles := some edited.affectedFiles
    undoData := some (undoData request edited) }

end Retouch.Project
