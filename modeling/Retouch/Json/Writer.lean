import Retouch.Json.Basic

/-!
# Writing JSON

The text of a value, in plain characters only: all others are written as escapes of their UTF-16
units. A value stands on one line, with or without blanks, or each item on a line of its own with an
indent.
-/
namespace Retouch.Json

def unitEscape (unit : Nat) : List Char := '\\' :: 'u' :: Text.hexChars 4 unit

def writeChar (c : Char) : List Char :=
  if c = '"' then ['\\', '"']
  else if c = '\\' then ['\\', '\\']
  else if c = '\n' then ['\\', 'n']
  else if c = '\r' then ['\\', 'r']
  else if c = '\t' then ['\\', 't']
  else if c.toNat = 12 then ['\\', 'f']
  else if c.toNat = 8 then ['\\', 'b']
  else if 32 ≤ c.toNat ∧ c.toNat < 127 then [c]
  else if c.toNat < 0x10000 then unitEscape c.toNat
  else
    let offset := c.toNat - 0x10000
    unitEscape (0xd800 + offset / 0x400) ++ unitEscape (0xdc00 + offset % 0x400)

def writeString (s : String) : String :=
  String.ofList ('"' :: s.toList.flatMap writeChar ++ ['"'])

/-- Numbers that are no decimals are written as words. -/
def writeReal (x : Float) : String :=
  match Number.reading x with
  | .nan => "NaN"
  | .infinite negative => if negative then "-Infinity" else "Infinity"
  | .finite _ => Number.fullText x

mutual

/-- The value on one line, with a text between items and one behind names. -/
def writeWith (comma colon : String) : Json → String
  | .null => "null"
  | .bool true => "true"
  | .bool false => "false"
  | .int n => toString n
  | .real x => writeReal x
  | .str s => writeString s
  | .arr items => "[" ++ String.intercalate comma (writeItems comma colon items) ++ "]"
  | .obj members =>
    "\x7b" ++ String.intercalate comma (writeMembers comma colon members) ++ "\x7d"
termination_by structural value => value

def writeItems (comma colon : String) : List Json → List String
  | [] => []
  | item :: rest => writeWith comma colon item :: writeItems comma colon rest
termination_by structural items => items

def writeMembers (comma colon : String) : List (String × Json) → List String
  | [] => []
  | member :: rest => writeMember comma colon member :: writeMembers comma colon rest
termination_by structural members => members

def writeMember (comma colon : String) : String × Json → String
  | (key, value) => writeString key ++ colon ++ writeWith comma colon value
termination_by structural member => member

end

/-- The value on one line. -/
def write (value : Json) : String := value.writeWith ", " ": "

/-- The value on one line, without blanks. -/
def writeCompact (value : Json) : String := value.writeWith "," ":"

/-- A line break and an indent. -/
def lineBreak (depth : Nat) : String := String.ofList ('\n' :: List.replicate (2 * depth) ' ')

/-- Items between brackets, each on a line of its own. -/
def bracketed (opening closing : String) (depth : Nat) (items : List String) : String :=
  match items with
  | [] => opening ++ closing
  | _ => opening ++ lineBreak (depth + 1) ++
      String.intercalate ("," ++ lineBreak (depth + 1)) items ++ lineBreak depth ++ closing

mutual

/-- The value over several lines, each level indented by two. -/
def writeIndented (depth : Nat) : Json → String
  | .null => "null"
  | .bool true => "true"
  | .bool false => "false"
  | .int n => toString n
  | .real x => writeReal x
  | .str s => writeString s
  | .arr items => bracketed "[" "]" depth (writeIndentedItems (depth + 1) items)
  | .obj members => bracketed "\x7b" "\x7d" depth (writeIndentedMembers (depth + 1) members)
termination_by structural value => value

def writeIndentedItems (depth : Nat) : List Json → List String
  | [] => []
  | item :: rest => writeIndented depth item :: writeIndentedItems depth rest
termination_by structural items => items

def writeIndentedMembers (depth : Nat) : List (String × Json) → List String
  | [] => []
  | member :: rest => writeIndentedMember depth member :: writeIndentedMembers depth rest
termination_by structural members => members

def writeIndentedMember (depth : Nat) : String × Json → String
  | (key, value) => writeString key ++ ": " ++ writeIndented depth value
termination_by structural member => member

end

end Retouch.Json
