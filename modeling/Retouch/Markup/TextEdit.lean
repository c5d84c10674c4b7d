import Retouch.Markup.Document
import Retouch.Text.Utf8
import Retouch.Transform

/-!
# Texts of elements

The text of an element is that of its first text that is not blank, with the texts and references right
behind it; it is compared and shown with its blanks collapsed. An edit replaces that run, and keeps the
blanks at its ends; in an element without such a run the new text goes behind the opening tag, in place
of whatever blanks and references there are when there is nothing else.
-/
namespace Retouch.Markup

/-- The pieces of a run that belongs to a text, as characters; `gap` stands between the run so far and
the rest. -/
def runFrom (gap : List Char) : List Piece → List Char
  | .text t :: rest => gap ++ t ++ runFrom [] rest
  | .reference t :: rest => gap ++ t ++ runFrom [] rest
  | .code t :: rest => runFrom (gap ++ t) rest
  | _ => []

/-- The characters before the run of an element, and the run itself. -/
def textRun? : List Piece → Option (List Char × List Char)
  | [] => none
  | piece :: rest =>
    let next := (textRun? rest).map fun (front, run) => (piece.chars ++ front, run)
    match piece with
    | .text t => if t.all Text.isPlainBlank then next else some ([], t ++ runFrom [] rest)
    | _ => next

/-- Whether a piece among the children is neither text nor a gap. -/
def Piece.isSolid : Piece → Bool
  | .text _ | .reference _ | .code _ => false
  | _ => true

/-- The shown text of an element. -/
def Element.textContent (e : Element) : String :=
  match e.closing, textRun? e.children with
  | some _, some (_, run) => String.ofList (Text.collapsed run)
  | _, _ => ""

/-- Why a text was not edited. -/
inductive TextError where
  | refused (e : TransformError)
  | undecodable (e : Text.Utf8.DecodeError)
  | place (e : PlaceError)
  deriving Repr

def refuse {α : Type} (code : ErrorCode) (message : String) (details : Json.Members) :
    Except TextError α :=
  .error (.refused ⟨code, message, some details⟩)

/-- The characters that would be taken for markup. -/
def isMarkupMark (c : Char) : Bool := c = '{' || c = '}' || c = '<' || c = '>'

def decodeText (bytes : Text.Bytes) : Except TextError (List Char) :=
  (Text.Utf8.decode bytes).mapError .undecodable

/-- Puts a text in the place of the bytes from one offset to another. -/
def spliceBytes (bytes : Text.Bytes) (start stop : Nat) (new : List Char) :
    Except TextError (List Char) :=
  decodeText (bytes.take start ++ Text.Utf8.encode new ++ bytes.drop stop)

/-- The number of bytes before an offset of a text. -/
def byteOffset (cs : List Char) (offset : Nat) : Nat := Text.Utf8.size (cs.take offset)

/-- Replaces the text of an element of `source`, whose bytes lie at the same places in `text`. -/
def Element.replaceText (e : Element) (source text new : List Char) : Except TextError (List Char) :=
  let bytes := Text.Utf8.encode text
  match textRun? e.children with
  | some (front, run) => do
    let first := e.openingStop + front.length
    let start := byteOffset source first
    let stop := byteOffset source (first + run.length)
    let raw ← decodeText ((bytes.take stop).drop start)
    let leading := raw.takeWhile Text.isBlank
    let trailing := raw.drop (Text.trimEnd raw).length
    spliceBytes bytes start stop (leading ++ new ++ trailing)
  | none =>
    let start := byteOffset source e.openingStop
    let stop := if e.children.any Piece.isSolid then start else byteOffset source e.closingStart
    spliceBytes bytes start stop new

/-- Refuses an edit that expects another text than the one that is there. -/
def checkContent (current expected : String) : Except TextError Unit :=
  if current = expected then .ok ()
  else refuse .elementNotFound
    ("Text content mismatch. Expected \"" ++ expected ++ "\", found \"" ++ current ++ "\"")
    [("reason", .str "content-mismatch"), ("expected", .str expected), ("found", .str current)]

/-- The text with the shown text of the element at a place replaced. The document is that of the text,
up to line breaks; unless it is blank, `prior` must be the text that is shown now. -/
def Document.updateText (d : Document) (text : List Char) (line column : Int)
    (prior new : String) : Except TextError (List Char) := do
  match ← (d.find text line column).mapError TextError.place with
  | none =>
    refuse .elementNotFound s!"No element found at line {line}, column {column}"
      [("line", .int line), ("column", .int column)]
  | some e =>
    if e.closing.isNone then
      refuse .elementNotFound "Cannot update text content of self-closing element"
        [("tag", .str (String.ofList e.name))]
    else if new.toList.any isMarkupMark then
      refuse .validationError "Text contains markup syntax characters (\x7b, \x7d, <, >)"
        [("newText", .str new)]
    else do
      if !Text.allBlank prior.toList then
        checkContent e.textContent (Text.collapsedText prior)
      e.replaceText d.source text new.toList

end Retouch.Markup
