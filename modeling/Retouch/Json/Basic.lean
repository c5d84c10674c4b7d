import Retouch.Number.Notation
import Retouch.Text.Printable

/-!
# JSON values

The data that travels between a page and its server. Integers have any size and are told apart from
numbers with a point or an exponent; the members of an object keep the order of their first
appearance. Main statement: `lookup_insert`, a member that was written last is the one that is read.
-/
namespace Retouch

inductive Json where
  | null
  | bool (b : Bool)
  | int (n : Int)
  | real (x : Float)
  | str (s : String)
  | arr (items : List Json)
  | obj (members : List (String × Json))
  deriving BEq, Inhabited, Repr

namespace Json

/-- The members of an object, in order. -/
abbrev Members := List (String × Json)

namespace Members

/-- The value of a member. -/
def lookup (members : Members) (key : String) : Option Json :=
  (members.find? fun member => member.1 == key).map Prod.snd

def has (members : Members) (key : String) : Bool := members.any fun member => member.1 == key

/-- Sets a member: in its place when it is there, at the end when it is new. -/
def insert : Members → String → Json → Members
  | [], key, value => [(key, value)]
  | member :: rest, key, value =>
    if member.1 == key then (key, value) :: rest else member :: insert rest key value

def erase (members : Members) (key : String) : Members :=
  members.filter fun member => member.1 != key

theorem lookup_insert (members : Members) (key other : String) (value : Json) :
    (members.insert key value).lookup other =
      if key = other then some value else members.lookup other := by
  induction members with
  | nil => by_cases same : key = other <;> simp [insert, lookup, same]
  | cons member rest ih =>
    unfold insert
    simp only [lookup] at ih ⊢
    by_cases here : member.1 = key
    · by_cases same : key = other
      · simp [here, same]
      · simp [here, same]
    · simp only [beq_iff_eq, here, if_false, List.find?_cons]
      by_cases same : key = other
      · subst same
        simp only [if_true] at ih ⊢
        rw [show (member.1 == key) = false by simpa using here]
        exact ih
      · cases found : (member.1 == other) with
        | true => simp [same]
        | false => simpa [same] using ih

end Members

/-- A member of an object; nothing for other values. -/
def get? (value : Json) (key : String) : Option Json :=
  match value with
  | .obj members => Members.lookup members key
  | _ => none

def asString? : Json → Option String
  | .str s => some s
  | _ => none

/-- Whether a member of an object is this text. -/
def Members.says (members : Members) (key text : String) : Bool :=
  (lookup members key).bind asString? == some text

/-- Whether a value counts as true: neither null, false, zero nor empty. -/
def isTruthy : Json → Bool
  | .null => false
  | .bool b => b
  | .int n => n != 0
  | .real x => x != 0.0
  | .str s => s != ""
  | .arr items => !items.isEmpty
  | .obj members => !members.isEmpty

/-! ## Display

The form in which a value is shown to a reader inside a message. -/

/-- Texts with commas between them. -/
def commas : List String → String
  | [] => ""
  | [s] => s
  | s :: rest => s ++ ", " ++ commas rest

mutual

/-- A value inside a message: strings are quoted, the three constants capitalised. -/
def display : Json → String
  | .null => "None"
  | .bool true => "True"
  | .bool false => "False"
  | .int n => toString n
  | .real x => Number.fullText x
  | .str s => Text.quoted s
  | .arr items => "[" ++ commas (displayItems items) ++ "]"
  | .obj members => "\x7b" ++ commas (displayMembers members) ++ "\x7d"
termination_by structural value => value

def displayItems : List Json → List String
  | [] => []
  | item :: rest => display item :: displayItems rest
termination_by structural items => items

def displayMembers : List (String × Json) → List String
  | [] => []
  | member :: rest => displayMember member :: displayMembers rest
termination_by structural members => members

def displayMember : String × Json → String
  | (key, value) => Text.quoted key ++ ": " ++ display value
termination_by structural member => member

end

/-- A value as a message quotes it: a string stands as it is. -/
def plainText : Json → String
  | .str s => s
  | value => value.display

end Json

end Retouch
