import Retouch.Wire.Fault
import Retouch.Text.Blank

/-!
# Checks of single values

Text is taken as it is. Numbers and truth values are also read from text, and from one another where
nothing is lost.
-/
namespace Retouch.Wire

def string : Json → Checked String
  | .str s => .ok s
  | input => .fail .notString input

/-- A text of one character at least. -/
def filledString : Json → Checked String
  | .str s => if s = "" then .fail .tooShort (.str s) else .ok s
  | input => .fail .notString input

/-- A number in a text may stand between blanks. -/
def withoutMargin (s : String) : List Char := Text.trimBy Text.isWhiteSpace s.toList

/-- Underscores between digits are dropped; elsewhere, or two in a row, they are no digits. -/
def dropUnderscores? (cs : List Char) : Option (List Char) :=
  let doubled := (cs.zip cs.tail).any fun (a, b) => a = '_' && b = '_'
  if cs.head? = some '_' || cs.getLast? = some '_' || !cs.contains '_' || doubled then none
  else some (cs.filter (· ≠ '_'))

/-- A decimal number in full: digits with a point before, among or behind them, and an exponent. -/
def decimal? (cs : List Char) : Option Float := do
  let (whole, rest) := cs.span Char.isDigit
  let (fraction, rest) := match rest with
    | '.' :: more => more.span Char.isDigit
    | _ => ([], rest)
  let digits := whole ++ fraction
  guard (!digits.isEmpty)
  let exponent : Int ← match rest with
    | [] => some 0
    | c :: more =>
      if c = 'e' ∨ c = 'E' then
        let (down, body) := match more with
          | '-' :: after => (true, after)
          | '+' :: after => (false, after)
          | _ => (false, more)
        if !body.isEmpty && body.all Char.isDigit then
          let size : Int := (Nat.ofDigitChars 10 body 0 : Nat)
          some (if down then -size else size)
        else none
      else none
  some (Number.ofDecimal (Nat.ofDigitChars 10 digits 0) digits.length (exponent - fraction.length))

/-- A number with its sign, or a word for infinity or for no number. -/
def signedDecimal? (cs : List Char) : Option Float :=
  let (negative, body) := match cs with
    | '-' :: rest => (true, rest)
    | '+' :: rest => (false, rest)
    | _ => (false, cs)
  let word := String.ofList (body.map Char.toLower)
  let size :=
    if word = "inf" || word = "infinity" then some (1.0 / 0.0)
    else if word = "nan" then some (0.0 / 0.0)
    else decimal? body
  size.map fun x => if negative then -x else x

def floatOfText? (s : String) : Option Float :=
  match signedDecimal? (withoutMargin s) with
  | some x => some x
  | none => (dropUnderscores? s.toList).bind fun cs => signedDecimal? (Text.trimBy Text.isWhiteSpace cs)

def float : Json → Checked Float
  | .real x => .ok x
  | .int n =>
    let x := Number.ofInt n
    if x.isInf then .fail .notFloat (.int n) else .ok x
  | .bool b => .ok (if b then 1.0 else 0.0)
  | .str s =>
    match floatOfText? s with
    | some x => .ok x
    | none => .fail .unreadableFloat (.str s)
  | input => .fail .notFloat input

/-- A share of the whole, from 0 to 1. -/
def unitFloat (input : Json) : Checked Float :=
  (float input).andThen fun x =>
    if 1.0 < x then .fail .aboveOne input
    else if x < 0.0 then .fail .belowZero input
    else .ok x

/-- Digits with a sign. -/
def signedDigits? (cs : List Char) : Option Int :=
  let (negative, body) := match cs with
    | '-' :: rest => (true, rest)
    | '+' :: rest => (false, rest)
    | _ => (false, cs)
  if !body.isEmpty && body.all Char.isDigit then
    let size : Int := (Nat.ofDigitChars 10 body 0 : Nat)
    some (if negative then -size else size)
  else none

/-- An integer in a text; zeros may follow a point, and underscores stand between digits. -/
def intOfText? (cs : List Char) : Option Int :=
  let (front, rest) := cs.span (· ≠ '.')
  let whole := if rest.all (fun c => c = '.' || c = '0') && rest.count '.' ≤ 1 then front else cs
  match signedDigits? whole with
  | some n => some n
  | none => (dropUnderscores? whole).bind signedDigits?

def oversize : Nat := 4300

/-- Doubles stand for integers below this size only. -/
def wordSize : Nat := 9223372036854775808

/-- The integer that a double is, if it is one of less than 64 bits. -/
def intOfFloat (x : Float) (input : Json) : Checked Int :=
  match Number.reading x with
  | .nan | .infinite _ => .fail .notFinite input
  | .finite b =>
    let (num, den) := b.scaled 0
    if num % den ≠ 0 then .fail .fractionalInt input
    else if wordSize ≤ num / den then .fail .oversizeInt input
    else
      let size : Int := (num / den : Nat)
      .ok (if b.negative then -size else size)

def int : Json → Checked Int
  | .int n => .ok n
  | .bool b => .ok (if b then 1 else 0)
  | .real x => intOfFloat x (.real x)
  | .str s =>
    let cs := withoutMargin s
    if oversize < (String.ofList cs).utf8ByteSize then .fail .oversizeInt (.str s)
    else match intOfText? cs with
      | some n => .ok n
      | none => .fail .unreadableInt (.str s)
  | input => .fail .notInt input

/-- A number counted from one. -/
def positive (input : Json) : Checked Nat :=
  (int input).andThen fun n => if 0 < n then .ok n.toNat else .fail .notPositive input

def trueWords : List String := ["1", "t", "y", "on", "yes", "true"]
def falseWords : List String := ["0", "f", "n", "no", "off", "false"]

def bool : Json → Checked Bool
  | .bool b => .ok b
  | .str s =>
    let word := String.ofList (s.toList.map Char.toLower)
    if trueWords.contains word then .ok true
    else if falseWords.contains word then .ok false
    else .fail .unreadableBool (.str s)
  | .int n =>
    if n = 1 then .ok true else if n = 0 then .ok false else .fail .unreadableBool (.int n)
  | .real x =>
    match intOfFloat x (.real x) with
    | .ok n =>
      if n = 1 then .ok true else if n = 0 then .ok false else .fail .unreadableBool (.real x)
    | .faults _ => .fail .notBool (.real x)
  | input => .fail .notBool input

/-- One of several words. -/
def oneOf {α : Type} (names : List String) (ofName? : String → Option α) (input : Json) :
    Checked α :=
  match input with
  | .str s =>
    match ofName? s with
    | some a => .ok a
    | none => .fail (.notOneOf names) input
  | _ => .fail (.notOneOf names) input

/-- The items of an array. -/
def tuple {α : Type} (check : Json → Checked α) : Json → Checked (List α)
  | .arr items => Checked.all (Checked.itemsFrom check 0 items)
  | input => .fail .notTuple input

def list {α : Type} (check : Json → Checked α) : Json → Checked (List α)
  | .arr items => Checked.all (Checked.itemsFrom check 0 items)
  | input => .fail .notList input

def dictionary : Json → Checked Json.Members
  | .obj members => .ok members
  | input => .fail .notDictionary input

end Retouch.Wire
