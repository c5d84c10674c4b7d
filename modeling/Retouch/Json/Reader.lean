import Retouch.Json.Basic

/-!
# Reading JSON

A reader for JSON texts that says what it missed and where. Beyond the standard it takes the words
for not-a-number and the infinities; of equal names in an object the last one counts. Every fault
carries how much of the text was left, from which line and column follow.
-/
namespace Retouch.Json

/-- What a reader missed or could not take. -/
inductive Fault where
  | expectingValue
  | expectingName
  | expectingColon
  | expectingComma
  | unterminatedString
  | controlCharacter
  | badEscape
  | badUnitEscape
  | extraData
  | byteOrderMark
  | longInteger (digits : Nat)
  | tooDeep
  deriving DecidableEq, Repr

def Fault.describe : Fault → String
  | .expectingValue => "Expecting value"
  | .expectingName => "Expecting property name enclosed in double quotes"
  | .expectingColon => "Expecting ':' delimiter"
  | .expectingComma => "Expecting ',' delimiter"
  | .unterminatedString => "Unterminated string starting at"
  | .controlCharacter => "Invalid control character at"
  | .badEscape => "Invalid \\escape"
  | .badUnitEscape => "Invalid \\uXXXX escape"
  | .extraData => "Extra data"
  | .byteOrderMark => "Unexpected UTF-8 BOM (decode using utf-8-sig)"
  | .longInteger digits =>
    s!"Exceeds the limit (4300 digits) for integer string conversion: value has {digits} digits; "
      ++ "use sys.set_int_max_str_digits() to increase the limit"
  | .tooDeep => "maximum recursion depth exceeded while decoding a JSON value"

/-- A fault at an offset, with its line and column. -/
structure ReadError where
  fault : Fault
  offset : Nat
  line : Nat
  column : Nat
  deriving DecidableEq, Repr

def ReadError.message (e : ReadError) : String :=
  match e.fault with
  | .longInteger _ | .tooDeep => e.fault.describe
  | fault => s!"{fault.describe}: line {e.line} column {e.column} (char {e.offset})"

/-- A fault, seen from where `left` characters remain. -/
structure Missed where
  fault : Fault
  left : Nat

/-- Fails where `rest` begins. -/
def missed {α : Type} (fault : Fault) (rest : List Char) : Except Missed α :=
  .error ⟨fault, rest.length⟩

def isSpace (c : Char) : Bool := c = ' ' || c = '\t' || c = '\n' || c = '\r'

def skipSpace (cs : List Char) : List Char := cs.dropWhile isSpace

/-- Four hexadecimal digits. -/
def unit? : List Char → Option (Nat × List Char)
  | a :: b :: c :: d :: rest =>
    match Text.hexValue? a, Text.hexValue? b, Text.hexValue? c, Text.hexValue? d with
    | some a, some b, some c, some d => some (((a * 16 + b) * 16 + c) * 16 + d, rest)
    | _, _, _, _ => none
  | _ => none

/-- A unit that stands for no character by itself reads as the replacement character. -/
def unitChar (unit : Nat) : Char :=
  if 0xd800 ≤ unit ∧ unit < 0xe000 then Char.ofNat 0xfffd else Char.ofNat unit

def escapeChar? : Char → Option Char
  | '"' => some '"'
  | '\\' => some '\\'
  | '/' => some '/'
  | 'b' => some (Char.ofNat 8)
  | 'f' => some (Char.ofNat 12)
  | 'n' => some '\n'
  | 'r' => some '\r'
  | 't' => some '\t'
  | _ => none

/-- The second half of a pair of units, when one follows and the text goes on after it. -/
def lowUnit? (rest : List Char) : Option (Option (Nat × List Char)) :=
  match rest with
  | '\\' :: 'u' :: more => if (more.drop 4).isEmpty then none else some (unit? more)
  | _ => none

/-- The rest of a string whose opening quote is where `start` begins; `read` holds its characters
so far, last first. -/
def stringFrom (start : List Char) : Nat → List Char → List Char →
    Except Missed (String × List Char)
  | 0, _, _ => missed .unterminatedString start
  | fuel + 1, read, cs =>
    match cs with
    | [] => missed .unterminatedString start
    | '"' :: rest => .ok (String.ofList read.reverse, rest)
    | '\\' :: rest =>
      match rest with
      | [] => missed .unterminatedString start
      | 'u' :: more =>
        if (more.drop 4).isEmpty then missed .badUnitEscape rest
        else match unit? more with
          | none => missed .badUnitEscape rest
          | some (unit, after) =>
            if 0xd800 ≤ unit ∧ unit < 0xdc00 then
              match lowUnit? after with
              | some none => missed .badUnitEscape (after.drop 1)
              | some (some (low, final)) =>
                if 0xdc00 ≤ low ∧ low < 0xe000 then
                  let code := 0x10000 + (unit - 0xd800) * 0x400 + (low - 0xdc00)
                  stringFrom start fuel (Char.ofNat code :: read) final
                else stringFrom start fuel (unitChar unit :: read) after
              | none => stringFrom start fuel (unitChar unit :: read) after
            else stringFrom start fuel (unitChar unit :: read) after
      | c :: more =>
        match escapeChar? c with
        | some plain => stringFrom start fuel (plain :: read) more
        | none => missed .badEscape cs
    | c :: rest =>
      if c.toNat < 32 then missed .controlCharacter cs
      else stringFrom start fuel (c :: read) rest

def digitRun (cs : List Char) : List Char × List Char := cs.span Char.isDigit

/-- The fraction of a number, when a digit follows the point. -/
def fractionOf (cs : List Char) : List Char × List Char :=
  match cs with
  | '.' :: rest =>
    match digitRun rest with
    | ([], _) => ([], cs)
    | (digits, more) => (digits, more)
  | _ => ([], cs)

/-- The exponent of a number, when a digit follows the letter and the sign. -/
def exponentOf (cs : List Char) : Option Int × List Char :=
  match cs with
  | c :: rest =>
    if c = 'e' ∨ c = 'E' then
      let (negative, body) := match rest with
        | '-' :: more => (true, more)
        | '+' :: more => (false, more)
        | _ => (false, rest)
      match digitRun body with
      | ([], _) => (none, cs)
      | (digits, more) =>
        let size : Int := (Nat.ofDigitChars 10 digits 0 : Nat)
        (some (if negative then -size else size), more)
    else (none, cs)
  | [] => (none, cs)

/-- Integers have this many digits at most. -/
def integerDigits : Nat := 4300

/-- A number; `cs` begins at its sign or first digit. -/
def number (cs : List Char) : Except Missed (Json × List Char) :=
  let (negative, body) := match cs with
    | '-' :: rest => (true, rest)
    | _ => (false, cs)
  let (whole, rest) := match body with
    | '0' :: rest => (['0'], rest)
    | _ => digitRun body
  if whole.isEmpty then missed .expectingValue cs
  else
    let (fraction, rest) := fractionOf rest
    let (exponent, rest) := exponentOf rest
    if fraction.isEmpty && exponent.isNone then
      if integerDigits < whole.length then missed (.longInteger whole.length) cs
      else
        let n : Int := (Nat.ofDigitChars 10 whole 0 : Nat)
        .ok (.int (if negative then -n else n), rest)
    else
      let digits := whole ++ fraction
      let size := Number.ofDecimal (Nat.ofDigitChars 10 digits 0) digits.length
        (exponent.getD 0 - fraction.length)
      .ok (.real (if negative then -size else size), rest)

/-- A word with its value, when the text begins with it. -/
def word? (cs : List Char) : Option (Json × List Char) :=
  let table : List (String × Json) := [("null", .null), ("true", .bool true),
    ("false", .bool false), ("NaN", .real (0.0 / 0.0)), ("Infinity", .real (1.0 / 0.0)),
    ("-Infinity", .real (-1.0 / 0.0))]
  (table.find? fun entry => entry.1.toList.isPrefixOf cs).map fun entry =>
    (entry.2, cs.drop entry.1.toList.length)

/-- Values nest this deep at most. -/
def nestingLimit : Nat := 960

mutual

/-- A value that begins where `cs` does, with `depth` levels to spare. -/
def value (depth : Nat) : Nat → List Char → Except Missed (Json × List Char)
  | 0, cs => missed .expectingValue cs
  | fuel + 1, cs =>
    match cs with
    | '"' :: rest => do
      let (s, rest) ← stringFrom cs (fuel + 1) [] rest
      return (.str s, rest)
    | '\x7b' :: rest =>
      if depth = 0 then missed .tooDeep cs
      else match skipSpace rest with
        | '\x7d' :: rest => .ok (.obj [], rest)
        | rest => members (depth - 1) fuel [] rest
    | '[' :: rest =>
      if depth = 0 then missed .tooDeep cs
      else match skipSpace rest with
        | ']' :: rest => .ok (.arr [], rest)
        | rest => items (depth - 1) fuel [] rest
    | _ =>
      match word? cs with
      | some found => .ok found
      | none => number cs

/-- The members of an object from a name on. -/
def members (depth : Nat) : Nat → Members → List Char → Except Missed (Json × List Char)
  | 0, _, cs => missed .expectingName cs
  | fuel + 1, read, cs =>
    match cs with
    | '"' :: rest => do
      let (name, rest) ← stringFrom cs (fuel + 1) [] rest
      match skipSpace rest with
      | ':' :: rest => do
        let (item, rest) ← value depth fuel (skipSpace rest)
        let read := read.insert name item
        match skipSpace rest with
        | '\x7d' :: rest => .ok (.obj read, rest)
        | ',' :: rest => members depth fuel read (skipSpace rest)
        | rest => missed .expectingComma rest
      | rest => missed .expectingColon rest
    | _ => missed .expectingName cs

/-- The items of an array from a value on; `read` holds those before it, last first. -/
def items (depth : Nat) : Nat → List Json → List Char → Except Missed (Json × List Char)
  | 0, _, cs => missed .expectingValue cs
  | fuel + 1, read, cs => do
    let (item, rest) ← value depth fuel cs
    match skipSpace rest with
    | ']' :: rest => .ok (.arr (item :: read).reverse, rest)
    | ',' :: rest => items depth fuel (item :: read) (skipSpace rest)
    | rest => missed .expectingComma rest

end

/-- Where a fault lies in the text. -/
def locate (cs : List Char) (m : Missed) : ReadError :=
  let offset := cs.length - m.left
  let before := cs.take offset
  { fault := m.fault
    offset := offset
    line := before.count '\n' + 1
    column := (before.reverse.takeWhile (· ≠ '\n')).length + 1 }

/-- Reads a text that holds one value and blanks. -/
def readChars (cs : List Char) : Except ReadError Json :=
  match cs with
  | '\ufeff' :: _ => .error (locate cs ⟨.byteOrderMark, cs.length⟩)
  | _ =>
    match value nestingLimit (2 * cs.length + 1) (skipSpace cs) with
    | .error m => .error (locate cs m)
    | .ok (found, rest) =>
      match skipSpace rest with
      | [] => .ok found
      | rest => .error (locate cs ⟨.extraData, rest.length⟩)

def read (s : String) : Except ReadError Json := readChars s.toList

end Retouch.Json
