import Retouch.Table
import Retouch.Text.Case

/-!
# The elements of a page

The elements that the client knows of, in the order in which they were made. Each one names its parent and
its children; an element without a parent is the body or was taken out of the page. Whoever follows these
links makes as many steps as there are elements at most, which is enough where no element is inside itself.
Main statement: `text?_setText`, an element has the text that it was given.
-/
namespace Retouch.Client

/-- The number of an element in the order of making. -/
abbrev ElementId := Nat

structure Element where
  tag : String
  attributes : Table String String := []
  /-- The text of its own, in front of those of its children. -/
  text : String := ""
  parent : Option ElementId := none
  children : List ElementId := []
  /-- Whether the user can type into the element. -/
  editable : Bool := false
  dataset : Table String String := []
  deriving DecidableEq, Repr

/-- The attribute with the place of an element in its source. -/
def placeAttribute : String := "oid"

/-- The attribute with the rules that style an element. -/
def styleAttribute : String := "css"

/-- The attribute of what the editor itself shows. -/
def overlayAttribute : String := "data-alara-overlay"

def Element.describe (e : Element) : String :=
  match e.attributes.get? placeAttribute with
  | some place => if place = "" then "<Element " ++ e.tag ++ ">"
    else "<Element " ++ e.tag ++ " oid=" ++ place ++ ">"
  | none => "<Element " ++ e.tag ++ ">"

structure Tree where
  elements : List Element := [{ tag := "body" }]
  deriving DecidableEq, Repr

namespace Tree

def body : ElementId := 0

def get? (tree : Tree) (id : ElementId) : Option Element := tree.elements[id]?

def update (tree : Tree) (id : ElementId) (change : Element → Element) : Tree :=
  { elements := tree.elements.modify id change }

theorem get?_update (tree : Tree) (id other : ElementId) (change : Element → Element) :
    (tree.update id change).get? other =
      if id = other then (tree.get? other).map change else tree.get? other := by
  unfold get? update
  by_cases same : id = other <;> simp [same]

def size (tree : Tree) : Nat := tree.elements.length

def parentOf (tree : Tree) (id : ElementId) : Option ElementId := (tree.get? id).bind Element.parent

def childrenOf (tree : Tree) (id : ElementId) : List ElementId :=
  ((tree.get? id).map Element.children).getD []

/-! ## Changes -/

/-- Takes an element out of the children of its parent. -/
def detach (tree : Tree) (id : ElementId) : Tree :=
  match tree.parentOf id with
  | some parent => tree.update parent fun e => { e with children := e.children.erase id }
  | none => tree

/-- Makes an element the last child of another one. -/
def append (tree : Tree) (parent child : ElementId) : Tree :=
  (((tree.detach child).update child fun e => { e with parent := some parent }).update parent
    fun e => { e with children := e.children ++ [child] })

/-- Makes a new element, as the last child of another one. -/
def create (tree : Tree) (tag : String) (attributes : Table String String) (text : String)
    (parent : ElementId) : Tree × ElementId :=
  let id := tree.size
  (append ⟨tree.elements ++ [{ tag := Text.lower tag, attributes, text }]⟩ parent id, id)

def orphan (tree : Tree) : List ElementId → Tree
  | [] => tree
  | id :: rest => orphan (tree.update id fun e => { e with parent := none }) rest

/-- Puts a text in the place of all that an element has in it. -/
def setText (tree : Tree) (id : ElementId) (text : String) : Tree :=
  (tree.orphan (tree.childrenOf id)).update id fun e => { e with text, children := [] }

/-! ## Walks -/

/-- The text of an element and all elements in it, when it is no more than `depth` deep. -/
def textWithin (tree : Tree) : Nat → ElementId → Option String
  | 0, _ => none
  | depth + 1, id =>
    match tree.get? id with
    | none => some ""
    | some e => (e.children.mapM (tree.textWithin depth)).map fun texts => e.text ++ String.join texts

/-- The text of an element and all elements in it; nothing when an element is inside itself. -/
def text? (tree : Tree) (id : ElementId) : Option String := tree.textWithin tree.size id

def textOf (tree : Tree) (id : ElementId) : String := (tree.text? id).getD ""

/-- An element and those around it, innermost first, up to `steps` of them. -/
def ancestorsWithin (tree : Tree) : Nat → ElementId → List ElementId
  | 0, _ => []
  | steps + 1, id => id :: match tree.parentOf id with
    | some parent => tree.ancestorsWithin steps parent
    | none => []

/-- An element and all those around it, innermost first. -/
def ancestors (tree : Tree) (id : ElementId) : List ElementId := tree.ancestorsWithin tree.size id

def attribute? (tree : Tree) (id : ElementId) (name : String) : Option String :=
  (tree.get? id).bind fun e => e.attributes.get? name

/-- The innermost element with an attribute, from an element outwards. -/
def closest? (tree : Tree) (id : ElementId) (name : String) : Option ElementId :=
  (tree.ancestors id).find? fun ancestor => (tree.attribute? ancestor name).isSome

/-- Whether an element is another one or around it. -/
def contains (tree : Tree) (id other : ElementId) : Bool := (tree.ancestors other).contains id

/-! ## Texts that were set -/

theorem size_update (tree : Tree) (id : ElementId) (change : Element → Element) :
    (tree.update id change).size = tree.size := by
  simp [size, update]

theorem size_orphan (tree : Tree) (ids : List ElementId) : (tree.orphan ids).size = tree.size := by
  induction ids generalizing tree with
  | nil => rfl
  | cons id rest ih => rw [orphan, ih, size_update]

theorem size_setText (tree : Tree) (id : ElementId) (text : String) :
    (tree.setText id text).size = tree.size := by
  rw [setText, size_update, size_orphan]

/-- An element has the text that it was given. -/
theorem text?_setText (tree : Tree) (id : ElementId) (text : String) (there : id < tree.size) :
    (tree.setText id text).text? id = some text := by
  have inside : id < (tree.orphan (tree.childrenOf id)).elements.length := by
    have same : (tree.orphan (tree.childrenOf id)).elements.length = tree.size :=
      size_orphan tree (tree.childrenOf id)
    rw [same]
    exact there
  have found : (tree.setText id text).get? id =
      some { (tree.orphan (tree.childrenOf id)).elements[id] with text, children := [] } := by
    rw [setText, get?_update, if_pos rfl]
    simp [get?, List.getElem?_eq_getElem inside]
  unfold text?
  rw [size_setText]
  generalize tree.size = size at there ⊢
  cases size with
  | zero => exact absurd there (Nat.not_lt_zero id)
  | succ depth => simp [textWithin, found]

end Tree

end Retouch.Client
