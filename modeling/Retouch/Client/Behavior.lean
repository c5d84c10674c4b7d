import Retouch.Client.Edits

/-!
# Behaviors

What an element does when it is clicked, typed at or left. A behavior says which elements it is for; of
those for one element, the one with the highest priority counts, and of equal ones the one that was
registered first. Main statement: `primary?_eq_head?`, the behavior that counts is the first of all that
are for the element.
-/
namespace Retouch.Client

/-- What became of an event: whether its usual effect is to be left out, and whether others may see it. -/
structure Handling where
  prevented : Bool := false
  stopped : Bool := false
  deriving DecidableEq, Repr

/-- A key, and whether shift, control or the like was held. -/
structure Key where
  name : String
  modified : Bool := false
  deriving DecidableEq, Repr

structure Behavior where
  id : String
  priority : Int := 0
  appliesTo : Element → Bool
  /-- Takes a click; says whether nothing else is to be done about it. -/
  clicked : ElementId → Action Bool := fun _ => return false
  /-- Takes a double click; it is handed the way to move the focus. -/
  doubleClicked : (ElementId → Action Unit) → ElementId → Action Handling := fun _ _ => return {}
  keyPressed : ElementId → Key → Action Handling := fun _ _ => return {}
  /-- Takes notice that the focus has left the element, and where it went. -/
  left : ElementId → Option ElementId → Action Unit := fun _ _ => return ()

/-- An id that two behaviors would have. -/
structure DuplicateBehavior where
  id : String
  deriving DecidableEq, Repr

def DuplicateBehavior.message (e : DuplicateBehavior) : String :=
  "Editor behavior '" ++ e.id ++ "' is already registered"

/-- Behaviors in the order of their priorities. -/
structure Behaviors where
  ordered : List Behavior := []

namespace Behaviors

def find? (behaviors : Behaviors) (id : String) : Option Behavior :=
  behaviors.ordered.find? fun behavior => behavior.id == id

/-- Puts a behavior behind all that do not come after it. -/
def place (behavior : Behavior) : List Behavior → List Behavior
  | [] => [behavior]
  | first :: rest =>
    if first.priority < behavior.priority then behavior :: first :: rest
    else first :: place behavior rest

def register (behaviors : Behaviors) (behavior : Behavior) : Except DuplicateBehavior Behaviors :=
  match behaviors.find? behavior.id with
  | some _ => .error ⟨behavior.id⟩
  | none => .ok ⟨place behavior behaviors.ordered⟩

/-- All behaviors for an element. -/
def allFor (behaviors : Behaviors) (element : Element) : List Behavior :=
  behaviors.ordered.filter fun behavior => behavior.appliesTo element

/-- The behavior that counts for an element. -/
def primary? (behaviors : Behaviors) (element : Element) : Option Behavior :=
  behaviors.ordered.find? fun behavior => behavior.appliesTo element

/-- The behavior that counts is the first of all that are for the element. -/
theorem primary?_eq_head? (behaviors : Behaviors) (element : Element) :
    behaviors.primary? element = (behaviors.allFor element).head? :=
  List.head?_filter.symm

end Behaviors

/-! ## Editing texts -/

/-- The tags of the elements whose text can be edited. -/
def textTags : List String :=
  ["h1", "h2", "h3", "h4", "h5", "h6", "p", "span", "label", "a", "li", "td", "th", "figcaption", "caption",
    "blockquote", "cite", "q", "dt", "dd"]

def isTextEditable (element : Element) : Bool := textTags.contains (Text.lower element.tag)

/-- Ends the edit of an element's text by committing it. -/
def commitElement (id : ElementId) : Action Unit := do
  let text := (← get).tree.textOf id
  closeElement id
  discard (commitEditing text)

/-- Whether the text of an element is being edited. -/
def isEdited (client : Client) (id : ElementId) : Bool :=
  client.session.any fun session => session.element = id

/-- Begins to edit the text of an element, which gets the focus and has all its text selected. -/
def openElement (focus : ElementId → Action Unit) (id : ElementId) : Action Unit := do
  let client ← get
  let prior := client.tree.textOf id
  let oid := (client.tree.attribute? id placeAttribute).getD ""
  let update (change : Element → Element) : Action Unit :=
    modify fun client => { client with tree := client.tree.update id change }
  update fun e => { e with editable := true }
  focus id
  modify fun client => { client with range := some ⟨id, 0, (client.tree.textOf id).length⟩ }
  startEditing ⟨id, prior, oid⟩
  update fun e => { e with dataset := e.dataset.put editingKey "true" }

/-- Texts are edited after a double click, until the element is left or a key ends the edit. -/
def textEditing : Behavior where
  id := "text-edit"
  priority := 10
  appliesTo := isTextEditable
  doubleClicked focus id := do
    openElement focus id
    return ⟨true, true⟩
  keyPressed id key := do
    if !isEdited (← get) id then return {}
    else if key.name = "Enter" && !key.modified then
      commitElement id
      return ⟨true, false⟩
    else if key.name = "Escape" then
      cancelEditing
      return ⟨true, false⟩
    else return {}
  left id went := do
    let client ← get
    if isEdited client id && !went.any (client.tree.contains id) then
      discard (schedule (.whole 0) (.commit id))

/-- The behaviors of every editor. -/
def standardBehaviors : Behaviors := ⟨[textEditing]⟩

end Retouch.Client
