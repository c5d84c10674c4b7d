import Retouch.Text.Utf8

/-!
# Encodings of files

The encodings that a project may name for its files, and how texts become bytes in them and come back.
-/
namespace Retouch.Files

inductive Encoding where
  | utf8
  /-- UTF-8 with a mark in front of the text. -/
  | signedUtf8
  | latin1
  | ascii
  deriving DecidableEq, Repr

namespace Encoding

/-- Letters, digits and points of a name in small letters; what lies between them is one underscore. -/
def plainName (name : String) : String :=
  let isPart (c : Char) : Bool := c.isAlphanum || c = '.'
  let step (parts : List (List Char)) (c : Char) : List (List Char) :=
    match parts with
    | part :: rest => if isPart c then (c.toLower :: part) :: rest else [] :: parts
    | [] => [if isPart c then [c.toLower] else []]
  let parts := (name.toList.foldl step []).reverse.map List.reverse
  String.intercalate "_" ((parts.filter fun part => !part.isEmpty).map String.ofList)

def names : Encoding → List String
  | .utf8 => ["utf_8", "utf8", "u8", "utf", "utf8_ucs2", "utf8_ucs4", "cp65001"]
  | .signedUtf8 => ["utf_8_sig"]
  | .latin1 => ["latin_1", "latin1", "latin", "l1", "iso_8859_1", "iso8859_1", "iso8859", "8859",
      "cp819", "ibm819", "csisolatin1", "iso_ir_100", "iso_8859_1_1987"]
  | .ascii => ["ascii", "us_ascii", "us", "646", "cp367", "ibm367", "csascii", "iso646_us",
      "iso_ir_6", "iso_646.irv_1991", "ansi_x3_4_1968", "ansi_x3.4_1968", "ansi_x3_4_1986",
      "ansi_x3.4_1986"]

def ofName? (name : String) : Option Encoding :=
  [utf8, signedUtf8, latin1, ascii].find? fun encoding => encoding.names.contains (plainName name)

/-- The name under which an encoding reports faults. -/
def title : Encoding → String
  | .utf8 | .signedUtf8 => "utf-8"
  | .latin1 => "latin-1"
  | .ascii => "ascii"

/-- The codes below this one have a byte. -/
def limit : Encoding → Nat
  | .utf8 | .signedUtf8 => 0x110000
  | .latin1 => 256
  | .ascii => 128

/-- Bytes that are no text. -/
inductive DecodeError where
  | utf8 (e : Text.Utf8.DecodeError)
  | ascii (byte : UInt8) (place : Nat)
  deriving DecidableEq, Repr

def DecodeError.message : DecodeError → String
  | .utf8 e => e.message
  | .ascii byte place =>
    let digits := String.ofList (Text.hexChars 2 byte.toNat)
    s!"'ascii' codec can't decode byte 0x{digits} in position {place}: ordinal not in range(128)"

/-- Characters without a byte, and where the first of them stands. -/
structure EncodeError where
  encoding : Encoding
  start : Nat
  characters : List Char
  deriving DecidableEq, Repr

/-- A character by its number. -/
def escaped (c : Char) : String :=
  let code := c.toNat
  let (letter, width) := if code < 0x100 then ('x', 2) else if code < 0x10000 then ('u', 4) else ('U', 8)
  String.ofList ('\\' :: letter :: Text.hexChars width code)

def EncodeError.message (e : EncodeError) : String :=
  let which := match e.characters with
    | [c] => "character '" ++ escaped c ++ "' in position " ++ toString e.start
    | cs => "characters in position " ++ toString e.start ++ "-" ++ toString (e.start + cs.length - 1)
  "'" ++ e.encoding.title ++ "' codec can't encode " ++ which ++ ": ordinal not in range(" ++
    toString e.encoding.limit ++ ")"

/-- The mark in front of signed texts. -/
def mark : Text.Bytes := [0xef, 0xbb, 0xbf]

def decode (encoding : Encoding) (bytes : Text.Bytes) : Except DecodeError (List Char) :=
  match encoding with
  | .utf8 => (Text.Utf8.decode bytes).mapError .utf8
  | .signedUtf8 =>
    let body := if mark.isPrefixOf bytes then bytes.drop mark.length else bytes
    (Text.Utf8.decode body).mapError .utf8
  | .latin1 => .ok (bytes.map fun b => Char.ofNat b.toNat)
  | .ascii =>
    match bytes.span fun b => b.toNat < 128 with
    | (plain, []) => .ok (plain.map fun b => Char.ofNat b.toNat)
    | (plain, b :: _) => .error (.ascii b plain.length)

/-- One byte for each character, as far as there is one. -/
def narrow (encoding : Encoding) (cs : List Char) : Except EncodeError Text.Bytes :=
  match cs.span fun c => c.toNat < encoding.limit with
  | (plain, []) => .ok (plain.map fun c => UInt8.ofNat c.toNat)
  | (plain, rest) =>
    .error ⟨encoding, plain.length, rest.takeWhile fun c => encoding.limit ≤ c.toNat⟩

def encode (encoding : Encoding) (cs : List Char) : Except EncodeError Text.Bytes :=
  match encoding with
  | .utf8 => .ok (Text.Utf8.encode cs)
  | .signedUtf8 => .ok (mark ++ Text.Utf8.encode cs)
  | .latin1 => narrow .latin1 cs
  | .ascii => narrow .ascii cs

end Encoding

end Retouch.Files
