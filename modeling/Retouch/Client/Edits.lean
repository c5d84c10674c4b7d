import Retouch.Client.Basic
import Retouch.Wire.Transform

/-!
# Selecting and editing

The user selects an element, points at another one, or edits the text of one; and the edits that were
sent wait for their answers. An edit of a text ends by being committed, which sends it if the text has
changed, or by being canceled, which puts the text back.
-/
namespace Retouch.Client

/-- The place in the sources that an element names, if it names one. -/
def elementTarget (tree : Tree) (id : ElementId) : Option SourceLocator :=
  let oid := (tree.attribute? id placeAttribute).getD ""
  let css := (tree.attribute? id styleAttribute).getD ""
  match SourceLocator.parse oid css with
  | .ok target => some target
  | .error _ => none

/-! ## Editing a text -/

/-- The mark of an element whose text is being edited. -/
def editingKey : String := "alaraEditing"

def startEditing (session : Session) : Action Unit :=
  change fun client => { client with session := some session, hovered := none }

def endSession : Action Unit := change fun client => { client with session := none }

/-- Takes from an element the marks of being edited. -/
def closeElement (id : ElementId) : Action Unit :=
  modify fun client => { client with
    tree := client.tree.update id fun e =>
      { e with editable := false, dataset := e.dataset.drop editingKey } }

def setText (id : ElementId) (text : String) : Action Unit :=
  modify fun client => { client with tree := client.tree.setText id text }

/-- Puts back the text of the element that is being edited, and ends the edit. -/
def cancelEditing : Action Unit := do
  if let some session := (← get).session then
    setText session.element session.prior
    closeElement session.element
  endSession

/-! ## Edits that were sent -/

def putEdit (id : String) (edit : Edit) : Action Unit :=
  change fun client => { client with edits := client.edits.put id edit }

/-- Notes that an edit was made; it is taken off the list after a while. -/
def markCommitted (id : String) : Action Unit := do
  let client ← get
  if let some edit := client.edits.get? id then
    putEdit id { edit with outcome := .committed }
    discard (schedule client.settings.pruneDelay (.prune id))

def markFailed (id : String) (error : Json) : Action Unit := do
  if let some edit := (← get).edits.get? id then
    putEdit id { edit with outcome := .failed, error }

def removeEdit (id : String) : Action Unit := do
  if (← get).edits.has id then
    change fun client => { client with edits := client.edits.drop id }

/-- The seconds of a time in milliseconds. -/
def seconds (now : Nat) : Float := Number.ofNat now / 1000.0

/-- The id of an edit that is sent as the one of a number. -/
def editId (now number : Nat) : String :=
  let suffix := Number.padLeft 7 (Number.digitChars number)
  "text-" ++ toString now ++ "-" ++ String.ofList suffix

/-- The message with a request. -/
def requestMessage (request : Request) : Json :=
  .obj (("action", .str "transform") :: request.members)

/-- Ends the edit of a text, and sends it if the text has changed; gives the id under which it was sent. -/
def commitEditing (new : String) : Action (Option String) := do
  let client ← get
  match client.session, client.selected with
  | some session, some ⟨_, some target⟩ =>
    if new = session.prior then
      endSession
      return none
    else
      let number := client.sent + 1
      let request : Request := ⟨editId client.now number, target, .textUpdate session.prior new⟩
      modify fun client => { client with sent := number }
      putEdit request.id { type := request.change.kind.name, target, timestamp := seconds client.now }
      let _ ← send (requestMessage request)
      endSession
      return some request.id
  | _, _ =>
    endSession
    return none

/-! ## Selecting and pointing -/

/-- Selects an element. The edit of another one is canceled. -/
def select (element : ElementId) (target : Option SourceLocator) : Action Unit := do
  let session := (← get).session
  let kept := session.filter fun s => s.element = element
  if session.isSome && kept.isNone then cancelEditing
  change fun client => { client with
    selected := some ⟨element, target⟩
    hovered := client.hovered.filter fun hovered => hovered ≠ element
    session := kept }

def clearSelection : Action Unit := do
  if (← get).session.isSome then cancelEditing
  change fun client => { client with selected := none, session := none }

def clearHover : Action Unit := change fun client => { client with hovered := none }

/-- Points at an element. While a text is edited nothing is pointed at, and neither is what is selected. -/
def hover (element : ElementId) : Action Unit := do
  let client ← get
  if client.session.isSome then return ()
  if client.selected.map Selected.element = some element then
    if client.hovered.isSome then clearHover
  else change fun client => { client with hovered := some element }

end Retouch.Client
