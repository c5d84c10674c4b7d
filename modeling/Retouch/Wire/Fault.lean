import Retouch.Json.Basic

/-!
# Faults of inbound data

Data from a page is checked against the form it must have. All faults of a value are collected, in
the order of its parts, each with its place, its cause and the input that caused it. Main statement:
`Checked.faults_seq`, no fault is lost when two checks are joined.
-/
namespace Retouch.Wire

/-- A step on the way to a part: a name, or a position in a list. -/
inductive Place where
  | name (s : String)
  | index (n : Nat)
  deriving DecidableEq, Repr

/-- What is wrong with an input. -/
inductive Cause where
  | missing
  | notString
  | tooShort
  | notFloat
  | unreadableFloat
  | notInt
  | unreadableInt
  | oversizeInt
  | fractionalInt
  | notFinite
  | notBool
  | unreadableBool
  | notTuple
  | notList
  | notDictionary
  | tooLong (most actual : Nat)
  | notOneOf (expected : List String)
  | notPositive
  | belowZero
  | aboveOne
  | notModel (name : String)
  | notObject
  | noTag
  | unknownTag (tag : String) (expected : List String)
  | tooDeep
  | refused (reason : String)
  deriving DecidableEq, Repr

structure Fault where
  cause : Cause
  place : List Place
  input : Json
  deriving Repr

/-- Faults under the name of what was checked. -/
structure Rejection where
  title : String
  faults : List Fault
  deriving Repr

def inQuotes (s : String) : String := "'" ++ s ++ "'"

/-- Alternatives in quotes, the last one after "or". -/
def alternatives : List String → String
  | [] => ""
  | [a] => inQuotes a
  | [a, b] => inQuotes a ++ " or " ++ inQuotes b
  | a :: rest => inQuotes a ++ ", " ++ alternatives rest

/-- The name of the kind of fault. -/
def Cause.kind : Cause → String
  | .missing => "missing"
  | .notString => "string_type"
  | .tooShort => "string_too_short"
  | .notFloat => "float_type"
  | .unreadableFloat => "float_parsing"
  | .notInt => "int_type"
  | .unreadableInt => "int_parsing"
  | .oversizeInt => "int_parsing_size"
  | .fractionalInt => "int_from_float"
  | .notFinite => "finite_number"
  | .notBool => "bool_type"
  | .unreadableBool => "bool_parsing"
  | .notTuple => "tuple_type"
  | .notList => "list_type"
  | .notDictionary => "dict_type"
  | .tooLong .. => "too_long"
  | .notOneOf _ => "literal_error"
  | .notPositive => "greater_than"
  | .belowZero => "greater_than_equal"
  | .aboveOne => "less_than_equal"
  | .notModel _ => "model_type"
  | .notObject => "model_attributes_type"
  | .noTag => "union_tag_not_found"
  | .unknownTag .. => "union_tag_invalid"
  | .tooDeep => "recursion_loop"
  | .refused _ => "value_error"

def Cause.message : Cause → String
  | .missing => "Field required"
  | .notString => "Input should be a valid string"
  | .tooShort => "String should have at least 1 character"
  | .notFloat => "Input should be a valid number"
  | .unreadableFloat => "Input should be a valid number, unable to parse string as a number"
  | .notInt => "Input should be a valid integer"
  | .unreadableInt => "Input should be a valid integer, unable to parse string as an integer"
  | .oversizeInt => "Unable to parse input string as an integer, exceeded maximum size"
  | .fractionalInt => "Input should be a valid integer, got a number with a fractional part"
  | .notFinite => "Input should be a finite number"
  | .notBool => "Input should be a valid boolean"
  | .unreadableBool => "Input should be a valid boolean, unable to interpret input"
  | .notTuple => "Input should be a valid tuple"
  | .notList => "Input should be a valid list"
  | .notDictionary => "Input should be a valid dictionary"
  | .tooLong most actual =>
    s!"Tuple should have at most {most} items after validation, not {actual}"
  | .notOneOf expected => "Input should be " ++ alternatives expected
  | .notPositive => "Input should be greater than 0"
  | .belowZero => "Input should be greater than or equal to 0"
  | .aboveOne => "Input should be less than or equal to 1"
  | .notModel name => "Input should be a valid dictionary or instance of " ++ name
  | .notObject => "Input should be a valid dictionary or object to extract fields from"
  | .noTag => "Unable to extract tag using discriminator 'type'"
  | .unknownTag tag expected =>
    "Input tag '" ++ tag ++ "' found using 'type' does not match any of the expected tags: " ++
      String.intercalate ", " (expected.map inQuotes)
  | .tooDeep => "Recursion error - cyclic reference detected"
  | .refused reason => "Value error, " ++ reason

/-- The bounds and alternatives that a message speaks of. -/
def Cause.context : Cause → Option Json
  | .tooShort => some (.obj [("min_length", .int 1)])
  | .tooLong most actual => some (.obj [("field_type", .str "Tuple"), ("max_length", .int most),
      ("actual_length", .int actual)])
  | .notOneOf expected => some (.obj [("expected", .str (alternatives expected))])
  | .notPositive => some (.obj [("gt", .int 0)])
  | .belowZero => some (.obj [("ge", .real 0.0)])
  | .aboveOne => some (.obj [("le", .real 1.0)])
  | .notModel name => some (.obj [("class_name", .str name)])
  | .noTag => some (.obj [("discriminator", .str "'type'")])
  | .unknownTag tag expected => some (.obj [("discriminator", .str "'type'"), ("tag", .str tag),
      ("expected_tags", .str (String.intercalate ", " (expected.map inQuotes)))])
  | .refused reason => some (.obj [("error", .str reason)])
  | _ => none

def Place.toJson : Place → Json
  | .name s => .str s
  | .index n => .int n

/-- A fault as it is reported. -/
def Fault.toJson (fault : Fault) : Json :=
  .obj ([("type", .str fault.cause.kind), ("loc", .arr (fault.place.map Place.toJson)),
    ("msg", .str fault.cause.message), ("input", fault.input)] ++
    match fault.cause.context with
    | some context => [("ctx", context)]
    | none => [])

/-- The first line of a report: how many faults there are, and in what. -/
def Rejection.headline (r : Rejection) : String :=
  toString r.faults.length ++ " validation error" ++ (if r.faults.length = 1 then "" else "s") ++
    " for " ++ r.title

/-- A checked part: the value it stands for, or all its faults. -/
inductive Checked (α : Type) where
  | ok (value : α)
  | faults (found : List Fault)

namespace Checked

variable {α β : Type}

def map (f : α → β) : Checked α → Checked β
  | .ok a => .ok (f a)
  | .faults found => .faults found

/-- Joins two checks: the faults of both are kept, the first one's in front. -/
def seq (f : Checked (α → β)) (x : Checked α) : Checked β :=
  match f, x with
  | .ok f, .ok a => .ok (f a)
  | .ok _, .faults found => .faults found
  | .faults found, .ok _ => .faults found
  | .faults found, .faults more => .faults (found ++ more)

instance : Applicative Checked where
  pure := .ok
  map := map
  seq f x := seq f (x ())

/-- Goes on with a value that passed. -/
def andThen (x : Checked α) (f : α → Checked β) : Checked β :=
  match x with
  | .ok a => f a
  | .faults found => .faults found

def toFaults : Checked α → List Fault
  | .ok _ => []
  | .faults found => found

theorem faults_seq (f : Checked (α → β)) (x : Checked α) :
    (seq f x).toFaults = f.toFaults ++ x.toFaults := by
  cases f <;> cases x <;> simp [seq, toFaults]

/-- The faults of a part, seen from the whole. -/
def under (place : Place) : Checked α → Checked α
  | .ok a => .ok a
  | .faults found => .faults (found.map fun fault => { fault with place := place :: fault.place })

/-- A single fault, at the place itself. -/
def fail (cause : Cause) (input : Json) : Checked α := .faults [⟨cause, [], input⟩]

def all : List (Checked α) → Checked (List α)
  | [] => .ok []
  | x :: rest => seq (map List.cons x) (all rest)

/-- Checks the items of a list, each under its position, from `start` on. -/
def itemsFrom (check : Json → Checked α) (start : Nat) : List Json → List (Checked α)
  | [] => []
  | item :: rest => (check item).under (.index start) :: itemsFrom check (start + 1) rest

/-- The outcome under the name of what was checked. -/
def result (title : String) : Checked α → Except Rejection α
  | .ok a => .ok a
  | .faults found => .error ⟨title, found⟩

end Checked

/-- A member under the first of its names that is there; without any it is missing. -/
def field {α : Type} (members : Json.Members) (names : List String) (check : Json → Checked α) :
    Checked α :=
  match names.find? members.has with
  | some name => (check ((members.lookup name).getD .null)).under (.name name)
  | none => (Checked.fail .missing (.obj members)).under (.name (names.headD ""))

/-- A member that may be left out. -/
def fieldOr {α : Type} (members : Json.Members) (names : List String) (default : α)
    (check : Json → Checked α) : Checked α :=
  match names.find? members.has with
  | some name => (check ((members.lookup name).getD .null)).under (.name name)
  | none => .ok default

/-- Null stands for nothing. -/
def optional {α : Type} (check : Json → Checked α) : Json → Checked (Option α)
  | .null => .ok none
  | input => (check input).map some

/-- An object, checked member by member; `name` is what it should have been. -/
def model {α : Type} (name : String) (check : Json.Members → Checked α) : Json → Checked α
  | .obj members => check members
  | input => .fail (.notModel name) input

end Retouch.Wire
