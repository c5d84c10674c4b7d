import Retouch.Text.Blank

/-!
# Splitting outside parentheses and quotes

A text is cut at separators that stand neither in parentheses nor in quotes. A closing parenthesis
without an opening one counts for nothing; a quote or parenthesis that stays open is an error.
-/
namespace Retouch.Style

/-- What a text is cut at: runs of blanks, one character, or nothing. -/
inductive Separator where
  | blank
  | char (c : Char)
  | never
  deriving DecidableEq, Repr

/-- A space stands for every run of blanks. A text that is not one character cuts nowhere, since
characters are looked at one by one. -/
def Separator.ofText (text : String) : Separator :=
  match text.toList with
  | [' '] => .blank
  | [c] => .char c
  | _ => .never

def Separator.matches (separator : Separator) (c : Char) : Bool :=
  match separator with
  | .blank => Text.isBlank c
  | .char d => c = d
  | .never => false

/-- Whether the reading is inside quotes, and within how many parentheses. -/
structure Nesting where
  quote : Option Char
  depth : Nat
  deriving DecidableEq, Repr

namespace Nesting

def outside : Nesting := ⟨none, 0⟩

def isOutside (n : Nesting) : Bool := n.quote.isNone && n.depth == 0

/-- The nesting behind a character. -/
def after (n : Nesting) (c : Char) : Nesting :=
  match n.quote with
  | some quote => if c = quote then { n with quote := none } else n
  | none =>
    if c = '\'' ∨ c = '"' then { n with quote := some c }
    else if c = '(' then { n with depth := n.depth + 1 }
    else if c = ')' then { n with depth := n.depth - 1 }
    else n

/-- Whether a character can separate here: quotes and parentheses never do. -/
def separates (n : Nesting) (separator : Separator) (c : Char) : Bool :=
  n.isOutside && !(c = '\'' || c = '"' || c = '(' || c = ')') && separator.matches c

end Nesting

/-- A text whose quotes or parentheses stay open. -/
structure Unbalanced where
  text : String
  deriving DecidableEq, Repr

def Unbalanced.message (e : Unbalanced) : String := "Unbalanced value: " ++ e.text

/-- Puts a character in front of the first piece. -/
def consFirst (c : Char) : List (List Char) → List (List Char)
  | [] => [[c]]
  | piece :: rest => (c :: piece) :: rest

/-- The pieces between separators, as they stand; nothing when the text ends inside quotes or
parentheses. -/
def pieces (separator : Separator) : Nesting → List Char → Option (List (List Char))
  | n, [] => if n.isOutside then some [[]] else none
  | n, c :: rest =>
    if n.separates separator c then (pieces separator n rest).map ([] :: ·)
    else (pieces separator (n.after c) rest).map (consFirst c)

/-- The parts of a text: trimmed, and without empty ones when blanks separate. -/
def splitTopLevel (separator : Separator) (cs : List Char) : Option (List (List Char)) :=
  (pieces separator .outside cs).map fun found =>
    match separator with
    | .blank => found.filter fun piece => !piece.isEmpty
    | .char _ | .never => found.map Text.trim

/-- The parts of a text, as texts. -/
def split (separator : Separator) (text : String) : Except Unbalanced (List String) :=
  match splitTopLevel separator text.toList with
  | some parts => .ok (parts.map String.ofList)
  | none => .error ⟨text⟩

end Retouch.Style
