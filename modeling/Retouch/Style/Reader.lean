import Retouch.Style.Value
import Retouch.Style.Split
import Retouch.Style.Color.Reader
import Retouch.Text.Word

/-!
# Reading style values

The value of a declaration from its text. Math functions, gradients, images, lists with commas and
whatever else is not understood are kept as text, so that reading never fails.
-/
namespace Retouch.Style

open Retouch.Text

/-- The properties whose words may name colors. -/
def colorProperties : List String := [
  "color", "background-color", "border-color", "border-top-color", "border-right-color",
  "border-bottom-color", "border-left-color", "outline-color", "text-decoration-color", "fill",
  "stroke", "caret-color", "accent-color"]

def isColorProperty (property : String) : Bool := colorProperties.contains (lower property)

/-- A word followed by an opening parenthesis, with blanks between them or none. -/
def opensWith (word cs : List Char) : Bool :=
  word.isPrefixOf cs &&
    match (cs.drop word.length).dropWhile isBlank with
    | '(' :: _ => true
    | _ => false

/-- Whether `opensWith` holds somewhere in a text; where `whole`, no word character may come right
before. `inWord` tells whether the character before the text is one. -/
def opensSomewhere (word : List Char) (whole : Bool) : Bool → List Char → Bool
  | _, [] => false
  | inWord, c :: rest =>
    (!(whole && inWord) && opensWith word (c :: rest)) ||
      opensSomewhere word whole (isWord c) rest

/-- Whether one text occurs in another. -/
def occursIn (word : List Char) : List Char → Bool
  | [] => word.isEmpty
  | c :: rest => word.isPrefixOf (c :: rest) || occursIn word rest

/-- Functions whose values are kept as text. -/
def opaqueFunctions : List String := ["calc", "min", "max", "clamp", "url", "image"]

/-- Whether a value is outside what is read: a math function, gradient or image, or several shadows. -/
def isComplex (cs : List Char) : Bool :=
  let lowered := lowerChars cs
  (opaqueFunctions.any fun name => opensSomewhere name.toList true false lowered) ||
    opensSomewhere "gradient".toList false false lowered ||
    (cs.contains ',' && occursIn "shadow".toList lowered)

/-- The shape of a name: two dashes at most, a letter or underscore, then letters, digits,
underscores and dashes. -/
def isIdentifier (cs : List Char) : Bool :=
  let body := match cs with
    | '-' :: '-' :: rest => rest
    | '-' :: rest => rest
    | _ => cs
  match body with
  | c :: rest =>
    (isLooseLetter c || c = '_') &&
      rest.all fun d => isLooseLetter d || ('0' ≤ d && d ≤ '9') || d = '_' || d = '-'
  | [] => false

/-- A number with its unit, when the whole token is one; other units are kept as text. -/
def dimension? (token : List Char) : Option Value := do
  let (number, rest) ← takeNumber token
  guard (rest.all fun c => isLooseLetter c || c = '%')
  if rest.isEmpty then return .number number
  match LengthUnit.ofName? (String.ofList (lowerChars rest)) with
  | some unit => return .unit number unit
  | none => return .unparsed (String.ofList token)

/-- Parts with commas between them. -/
def joinCommas : List (List Char) → List Char
  | [] => []
  | [part] => part
  | part :: rest => part ++ ',' :: joinCommas rest

/-- A reference to a variable from what stands in its parentheses; `inner` reads its fallback. -/
def readVar (inner : List Char → Option Value) (body : List Char) : Option Value := do
  let parts ← splitTopLevel (.char ',') body
  let name := trim (parts.headD [])
  if !"--".toList.isPrefixOf name then
    return .unparsed (String.ofList ("var(".toList ++ body ++ [')']))
  let rest := trim (joinCommas parts.tail)
  if rest.isEmpty then return .var (String.ofList name) none
  return .var (String.ofList name) (some (← inner rest))

/-- A value without blanks outside parentheses and quotes; `colors` tells whether words may name
colors. -/
def readToken (colors : Bool) (inner : List Char → Option Value) (token : List Char) :
    Option Value :=
  let asText := Value.unparsed (String.ofList token)
  match dimension? token with
  | some value => some value
  | none =>
    match token with
    | '#' :: _ => some (((Color.ofChars? token).map .color).getD asText)
    | c :: _ =>
      if c = '\'' ∨ c = '"' then some (.keyword (String.ofList token))
      else match functionParts? token with
        | some (name, body) =>
          let name := String.ofList (lowerChars name)
          if name = "var" then readVar inner body
          else if colorFunctions.contains name then
            some (((Color.ofChars? token).map .color).getD asText)
          else some asText
        | none =>
          if isIdentifier token then
            if colors && looksLikeColor token then
              some (((Color.ofChars? token).map .color).getD (.keyword (String.ofList token)))
            else some (.keyword (String.ofList token))
          else some asText
    | [] => some asText

/-- Fallbacks of variables are read this many levels deep; a deeper one is kept as text. -/
def nestingLimit : Nat := 17

/-- Reads a value with `levels` of fallbacks to spare; nothing when quotes or parentheses stay
open. -/
def readAt (colors : Bool) : Nat → List Char → Option Value
  | 0, text => some (.unparsed (String.ofList (trim text)))
  | levels + 1, text =>
    let trimmed := trim text
    let asText := Value.unparsed (String.ofList trimmed)
    if trimmed.isEmpty || isComplex trimmed then some asText
    else do
      let listed ← splitTopLevel (.char ',') trimmed
      if 1 < listed.length then return asText
      match ← splitTopLevel .blank trimmed with
      | [token] => readToken colors (readAt colors levels) token
      | tokens => return .tuple (← tokens.mapM (readToken colors (readAt colors levels)))

/-- The value that a text stands for as the value of a property. -/
def Value.ofChars (property : String) (text : List Char) : Value :=
  (readAt (isColorProperty property) nestingLimit text).getD (.unparsed (String.ofList (trim text)))

def Value.parse (property text : String) : Value := Value.ofChars property text.toList

end Retouch.Style
