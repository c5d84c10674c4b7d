import Retouch.Markup.Reader

/-!
# Documents

A markup source with its pieces, and the elements found in it by their places. The innermost element
around a place is the one that contains it with none of its descendants doing so; a place between two
elements belongs to the one that begins there.
-/
namespace Retouch.Markup

structure Document where
  language : Language
  source : List Char
  pieces : List Piece
  parsed : pieces = parse language source

namespace Document

def ofChars (language : Language) (source : List Char) : Document :=
  ⟨language, source, parse language source, rfl⟩

/-- Whether a part of the source fits nowhere. -/
def hasError (d : Document) : Bool := !areSound d.pieces

end Document

/-- An element with the offset where it begins. -/
structure Element where
  start : Nat
  name : List Char
  opening : List Piece
  children : List Piece
  /-- The closing tag, unless the element closes itself. -/
  closing : Option (List Char)
  deriving Repr

namespace Element

def size (e : Element) : Nat :=
  (charsOf e.opening).length + (charsOf e.children).length + (e.closing.getD []).length

def stop (e : Element) : Nat := e.start + e.size

/-- The offset behind the opening tag. -/
def openingStop (e : Element) : Nat := e.start + (charsOf e.opening).length

/-- The offset before the closing tag. -/
def closingStart (e : Element) : Nat := e.openingStop + (charsOf e.children).length

end Element

mutual

/-- The innermost element around a place, in a piece that begins at an offset. -/
def Piece.elementAt (place start : Nat) : Piece → Option Element
  | .braces inner => elementAmong place start inner
  | .element name opening children closing =>
    let whole : Element := ⟨start, name, opening, children, closing⟩
    if start ≤ place ∧ place < whole.stop then
      match elementAmong place start opening with
      | some found => some found
      | none =>
        match elementAmong place whole.openingStop children with
        | some found => some found
        | none => some whole
    else none
  | .code _ => none
  | .stray _ => none
  | .text _ => none
  | .reference _ => none
termination_by structural piece => piece

def elementAmong (place start : Nat) : List Piece → Option Element
  | [] => none
  | piece :: rest =>
    match piece.elementAt place start with
    | some found => some found
    | none => elementAmong place (start + piece.chars.length) rest
termination_by structural pieces => pieces

end

namespace Document

/-- The innermost element around an offset. -/
def elementAt? (d : Document) (place : Nat) : Option Element := elementAmong place 0 d.pieces

end Document

/-! ## Lines and columns -/

/-- The lines of a text; the last one has no line feed. -/
def linesOf (cs : List Char) : List (List Char) := cs.splitOn '\n'

/-- The number of characters before a column: none before the first one, and no more than there are.
Columns below one count from the end. -/
def columnOffset (line : List Char) (column : Int) : Nat :=
  let n := column - 1
  if n < 0 then (line.length + n).toNat else min n.toNat line.length

/-- What looking up a place can run into before any element is looked for. -/
inductive PlaceError where
  | lineOutOfRange
  deriving DecidableEq, Repr

/-- The line with a number from zero on; negative ones count from the end. -/
def lineAt? (lines : List (List Char)) (row : Int) : Except PlaceError (Option (List Char)) :=
  if 0 ≤ row then .ok lines[row.toNat]?
  else
    let back := (-row).toNat
    if back ≤ lines.length then .ok lines[lines.length - back]? else .error .lineOutOfRange

/-- The offset in `cs` of a row and a number of characters in it, cut to the length of the row. -/
def offsetAt (cs : List Char) (row : Nat) (characters : Nat) : Nat :=
  let lines := linesOf cs
  let before := (lines.take row).foldl (fun count line => count + (line.length + 1)) 0
  before + min characters (lines.getD row []).length

namespace Document

/-- The element at a line and column of a text, which is the document's source up to its line breaks. -/
def find (d : Document) (text : List Char) (line column : Int) :
    Except PlaceError (Option Element) := do
  match ← lineAt? (linesOf text) (line - 1) with
  | none => return none
  | some found =>
    if line < 1 then return none
    else return d.elementAt? (offsetAt d.source (line - 1).toNat (columnOffset found column))

end Document

end Retouch.Markup
