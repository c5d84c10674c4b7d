import Retouch.Client.Behavior
import Retouch.Client.Channel

/-!
# Events of the page

What the client does about the events of a page while it follows them. A click selects the innermost element
around it that names its place in the sources, or clears the selection; the behaviors of that element may
take it instead. Keys go to the element whose text is being edited.
-/
namespace Retouch.Client

inductive Event where
  | click (target : Option ElementId)
  | doubleClick (target : Option ElementId)
  | mouseMove (target : Option ElementId)
  | mouseLeave
  | keyDown (key : Key)
  | focusOut (target went : Option ElementId)
  deriving DecidableEq, Repr

/-- The types of the events that the client follows. -/
def eventTypes : List String := ["click", "dblclick", "mousemove", "mouseleave", "keydown", "focusout"]

/-- How many listeners the client has on the page, of all types or of one. -/
def listenerCount (client : Client) (type : Option String) : Nat :=
  if client.listening then (eventTypes.filter fun known => type.all (· == known)).length else 0

/-- The innermost element around a place that names its place in the sources. -/
def placedElement? (tree : Tree) (target : Option ElementId) : Option ElementId :=
  target.bind fun id => tree.closest? id placeAttribute

/-- The behavior that counts for an element of the page. -/
def behaviorOf? (behaviors : Behaviors) (tree : Tree) (id : ElementId) : Option Behavior :=
  (tree.get? id).bind behaviors.primary?

def clicked (behaviors : Behaviors) (target : Option ElementId) : Action Handling := do
  let client ← get
  if target.any fun id => (client.tree.closest? id overlayAttribute).isSome then return {}
  match placedElement? client.tree target with
  | none =>
    clearSelection
    return {}
  | some id =>
    if isEdited client id then return {}
    let taken ← match behaviorOf? behaviors client.tree id with
      | some behavior => behavior.clicked id
      | none => pure false
    if !taken then select id (elementTarget (← get).tree id)
    return ⟨true, true⟩

/-- Takes notice that an element has lost the focus. -/
def focusLeft (behaviors : Behaviors) (target went : Option ElementId) : Action Unit := do
  let client ← get
  if let some session := client.session then
    if target = some session.element then
      if let some behavior := behaviorOf? behaviors client.tree session.element then
        behavior.left session.element went

/-- Moves the focus, or takes it away. -/
def moveFocus (behaviors : Behaviors) (target : Option ElementId) : Action Unit := do
  let client ← get
  if client.focus ≠ target then
    set { client with focus := target }
    if client.focus.isSome && client.listening then focusLeft behaviors client.focus target

/-- Takes the focus away from an element, if it is there. -/
def blur (behaviors : Behaviors) (id : ElementId) : Action Unit := do
  if (← get).focus = some id then moveFocus behaviors none

def doubleClicked (behaviors : Behaviors) (target : Option ElementId) : Action Handling := do
  let client ← get
  match placedElement? client.tree target with
  | none => return {}
  | some id =>
    match behaviorOf? behaviors client.tree id with
    | some behavior => behavior.doubleClicked (fun other => moveFocus behaviors (some other)) id
    | none => return {}

def mouseMoved (target : Option ElementId) : Action Unit := do
  let client ← get
  if client.session.isNone then
    match placedElement? client.tree target with
    | some id => if client.hovered ≠ some id then hover id
    | none => if client.hovered.isSome then clearHover

def keyPressed (behaviors : Behaviors) (key : Key) : Action Handling := do
  let client ← get
  match client.session with
  | none => return {}
  | some session =>
    match behaviorOf? behaviors client.tree session.element with
    | some behavior => behavior.keyPressed session.element key
    | none => return {}

def handle (behaviors : Behaviors) : Event → Action Handling
  | .click target => clicked behaviors target
  | .doubleClick target => doubleClicked behaviors target
  | .mouseMove target => do
    mouseMoved target
    return {}
  | .mouseLeave => do
    clearHover
    return {}
  | .keyDown key => keyPressed behaviors key
  | .focusOut target went => do
    focusLeft behaviors target went
    return {}

/-- Takes an event of the page, if the client follows them. -/
def dispatch (behaviors : Behaviors) (event : Event) : Action Handling := do
  if (← get).listening then handle behaviors event else return {}

/-! ## Timers -/

/-- Does what was put off. -/
def runTask : Task → Action Unit
  | .commit id => do if isEdited (← get) id then commitElement id
  | .prune edit => removeEdit edit
  | .reconnect => reconnect

/-- Lets a timer fire: it is no longer set, and its task is done. -/
def fire (timer : Timer) : Action Unit := do
  cancel timer.number
  runTask timer.task

/-! ## Beginning and end -/

/-- Follows the events of the page and connects; says that the client runs. -/
def start : Action Unit := do
  if !(← get).listening then
    discard connect
    modify fun client => { client with listening := true }

/-- Leaves the page alone again, and puts an end to connecting. -/
def destroy : Action Unit := do
  modify fun client => { client with listening := false }
  close
  dispose

end Retouch.Client
