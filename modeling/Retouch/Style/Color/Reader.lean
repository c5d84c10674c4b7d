import Retouch.Style.Color
import Retouch.Style.Color.Convert
import Retouch.Text.Blank
import Retouch.Text.Digit

/-!
# Reading colors

A color is written as a hexadecimal code, a name, or a function with its channels between commas or
blanks. The opacity follows a slash, or is the fourth of four parts between commas.
-/
namespace Retouch.Style

open Retouch.Text

/-- Letters of the two cases, and the four others that a search without regard to case takes for
Latin letters: dotted and dotless i, long s, and the Kelvin sign. -/
def isLooseLetter (c : Char) : Bool :=
  c.isAlpha || c = 'İ' || c = 'ı' || c = 'ſ' || c.toNat = 0x212a

/-- Whether a minus sign stands in front, and what follows the sign. -/
def takeSign : List Char → Bool × List Char
  | '-' :: rest => (true, rest)
  | '+' :: rest => (false, rest)
  | cs => (false, cs)

/-- The digits behind a point and the rest. A point alone, without digits before or behind it, is left
standing. -/
def takeFraction (whole : List Char) : List Char → List Char × List Char
  | '.' :: more =>
    let (digits, after) := more.span isDigit
    if whole.isEmpty && digits.isEmpty then ([], '.' :: more) else (digits, after)
  | rest => ([], rest)

/-- An exponent and the rest; its letter alone, without digits behind it, is left standing. -/
def takeExponent : List Char → Int × List Char
  | c :: more =>
    if c = 'e' ∨ c = 'E' then
      let (down, body) := takeSign more
      let (power, after) := body.span isDigit
      if power.isEmpty then (0, c :: more)
      else
        let size : Int := (digitsValue power : Nat)
        (if down then -size else size, after)
    else (0, c :: more)
  | [] => (0, [])

/-- A decimal number at the front of a text: its value and the rest. Digits with a point among or
behind them, or a point with digits behind it, then an exponent if digits follow its letter. -/
def takeNumber (cs : List Char) : Option (Float × List Char) :=
  let (negative, body) := takeSign cs
  let (whole, rest) := body.span isDigit
  let (fraction, rest) := takeFraction whole rest
  let digits := whole ++ fraction
  if digits.isEmpty then none
  else
    let (exponent, rest) := takeExponent rest
    let size := Number.ofDecimal (digitsValue digits) digits.length (exponent - fraction.length)
    some (if negative then -size else size, rest)

/-- The unit of a channel: a share of the channel's range, or an angle. -/
inductive ChannelUnit where
  | plain
  | percent
  | degree
  | turn
  | radian
  | gradian

def channelUnit? (cs : List Char) : Option ChannelUnit :=
  let name := String.ofList (cs.map Char.toLower)
  if name = "" then some .plain
  else if name = "%" then some .percent
  else if name = "deg" then some .degree
  else if name = "turn" then some .turn
  else if name = "rad" then some .radian
  else if name = "grad" then some .gradian
  else none

/-- A channel, where the whole of its range stands for `percentScale`. -/
def channel? (percentScale : Float) (token : List Char) : Option Float :=
  if lowerChars token = "none".toList then some 0.0
  else do
    let (number, rest) ← takeNumber token
    match ← channelUnit? rest with
    | .plain | .degree => some number
    | .percent => some (number / 100.0 * percentScale)
    | .turn => some (number * 360.0)
    | .radian => some (number * degreesPerRadian)
    | .gradian => some (number * 0.9)

/-- Splits at every occurrence of a character. -/
def splitAll (separator : Char) : List Char → List (List Char)
  | [] => [[]]
  | c :: rest =>
    if c = separator then [] :: splitAll separator rest
    else match splitAll separator rest with
      | piece :: more => (c :: piece) :: more
      | [] => [[c]]

/-- The parts of a color function's arguments, and its opacity when there is one. -/
def splitArguments (body : List Char) : List (List Char) × Option (List Char) :=
  let (body, alpha) := match body.span (· ≠ '/') with
    | (front, _ :: rest) => (front, some (trim rest))
    | (front, []) => (front, none)
  if body.contains ',' then
    let parts := (splitAll ',' body).map trim
    match parts, alpha with
    | [a, b, c, d], none => ([a, b, c], some d)
    | _, _ => (parts, alpha)
  else (words body, alpha)

def alpha? : Option (List Char) → Option Float
  | none => some 1.0
  | some token => channel? 1.0 token

/-- A color function with its name in lower case. -/
def colorOfFunction? (name : String) (body : List Char) : Option Color :=
  let (parts, token) := splitArguments body
  (alpha? token).bind fun alpha =>
    match parts with
    | [a, b, c] =>
      if name = "rgb" || name = "rgba" then do
        let a ← channel? 255.0 a
        let b ← channel? 255.0 b
        let c ← channel? 255.0 c
        some (.make .srgb ⟨a / 255.0, b / 255.0, c / 255.0⟩ alpha)
      else if name = "hsl" || name = "hsla" then do
        let a ← channel? 1.0 a
        let b ← channel? 100.0 b
        let c ← channel? 100.0 c
        some (.make .hsl ⟨a, b, c⟩ alpha)
      else if name = "oklch" then do
        let a ← channel? 1.0 a
        let b ← channel? 0.4 b
        let c ← channel? 1.0 c
        some (.make .oklch ⟨a, b, c⟩ alpha)
      else if name = "oklab" then do
        let a ← channel? 1.0 a
        let b ← channel? 0.4 b
        let c ← channel? 0.4 c
        some (.make .oklab ⟨a, b, c⟩ alpha)
      else none
    | [space, a, b, c] =>
      if name = "color" then do
        let space := lowerChars space
        let space ←
          if space = "srgb".toList then some ColorSpace.srgb
          else if space = "display-p3".toList || space = "p3".toList then some .displayP3
          else none
        let a ← channel? 1.0 a
        let b ← channel? 1.0 b
        let c ← channel? 1.0 c
        some (.make space ⟨a, b, c⟩ alpha)
      else none
    | _ => none

/-- Two hexadecimal digits as a share of 255. -/
def hexShare (high low : Nat) : Float := Number.ofNat (16 * high + low) / 255.0

/-- The color of a hexadecimal code: three or four digits, each counting twice, or three or four
pairs of digits. -/
def colorOfHex? (digits : List Char) : Option Color :=
  match digits.mapM hexValue? with
  | some [r, g, b] => some (.make .srgb ⟨hexShare r r, hexShare g g, hexShare b b⟩ 1.0)
  | some [r, g, b, a] =>
    some (.make .srgb ⟨hexShare r r, hexShare g g, hexShare b b⟩ (hexShare a a))
  | some [r, r', g, g', b, b'] =>
    some (.make .srgb ⟨hexShare r r', hexShare g g', hexShare b b'⟩ 1.0)
  | some [r, r', g, g', b, b', a, a'] =>
    some (.make .srgb ⟨hexShare r r', hexShare g g', hexShare b b'⟩ (hexShare a a'))
  | _ => none

/-- A name of letters and dashes, and what stands between the parenthesis behind it and one at the
very end. -/
def functionParts? (cs : List Char) : Option (List Char × List Char) :=
  let (name, rest) := cs.span fun c => isLooseLetter c || c = '-'
  match rest, rest.reverse with
  | '(' :: body, ')' :: _ =>
    if name.isEmpty || body.isEmpty then none else some (name, body.dropLast)
  | _, _ => none

def colorOfName? (name : String) : Option Color :=
  (namedColors.find? fun entry => entry.1 == name).map fun (_, r, g, b) =>
    .make .srgb ⟨Number.ofNat r / 255.0, Number.ofNat g / 255.0, Number.ofNat b / 255.0⟩ 1.0

/-- The color that a text writes, if it writes one. -/
def Color.ofChars? (cs : List Char) : Option Color :=
  let trimmed := trim cs
  let lowered := String.ofList (lowerChars trimmed)
  match trimmed with
  | '#' :: digits => colorOfHex? digits
  | _ =>
    match colorOfName? lowered with
    | some color => some color
    | none =>
      if lowered = "transparent" then some (.make .srgb ⟨0.0, 0.0, 0.0⟩ 0.0)
      else match functionParts? trimmed with
        | some (name, body) => colorOfFunction? (String.ofList (lowerChars name)) (trim body)
        | none => none

def Color.parse? (s : String) : Option Color := Color.ofChars? s.toList

/-- What a text begins with that can only be a color. -/
def colorBeginnings : List String := ["#", "rgb", "hsl", "oklch", "oklab", "color("]

/-- Whether a text looks like a color. -/
def looksLikeColor (cs : List Char) : Bool :=
  let lowered := lowerChars (trim cs)
  colorBeginnings.any (fun beginning => beginning.toList.isPrefixOf lowered) ||
    (namedColors.any fun entry => entry.1.toList == lowered) ||
    (colorKeywords.any fun word => word.toList == lowered)

end Retouch.Style
