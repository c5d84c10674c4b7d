import Retouch.Style.Color.Convert
import Retouch.Text.Printable

/-!
# Writing colors

Without a format an opaque `srgb` color is written as a code, a translucent one with `rgb`, and all
others with the function of their space. Writing fails where a channel that has to become a whole
number is none.
-/
namespace Retouch.Style

/-- Why a value could not be written. -/
inductive WriteError where
  | number (cause : Number.FixedError)
  | notANumber
  | infinite
  deriving DecidableEq, Repr

def WriteError.message : WriteError → String
  | .number cause => cause.message
  | .notANumber => "cannot convert float NaN to integer"
  | .infinite => "cannot convert float infinity to integer"

/-- The ways of writing a color that can be asked for. -/
inductive ColorFormat where
  | hex
  | rgb
  | hsl
  | oklch
  | oklab
  deriving DecidableEq, Repr

def ColorFormat.name : ColorFormat → String
  | .hex => "hex"
  | .rgb => "rgb"
  | .hsl => "hsl"
  | .oklch => "oklch"
  | .oklab => "oklab"

def ColorFormat.all : List ColorFormat := [.hex, .rgb, .hsl, .oklch, .oklab]

def ColorFormat.ofName? (name : String) : Option ColorFormat :=
  all.find? fun format => format.name == name

def writeNumber (places : Int) (x : Float) : Except WriteError String :=
  (Number.fixedText x places).mapError .number

/-- The whole number nearest to a double, a half going to the even one. -/
def nearestInt (x : Float) : Except WriteError Int :=
  match Number.reading x with
  | .nan => .error .notANumber
  | .infinite _ => .error .infinite
  | .finite b =>
    let (num, den) := b.scaled 0
    let size : Int := (Number.roundQuotient num den : Nat)
    .ok (if b.negative then -size else size)

/-- Two hexadecimal digits for a share of the range from 0 to 1. -/
def hexPair (share : Float) : Except WriteError String := do
  let n ← nearestInt (share * 255.0)
  return String.ofList (Text.hexChars 2 (min 255 (max 0 n)).toNat)

def alphaPart (places : Int) (alpha : Float) : Except WriteError String :=
  if 1.0 ≤ alpha then .ok ""
  else return " / " ++ (← writeNumber places alpha)

def writeChannels (places : Int) (c : Channels) : Except WriteError String := do
  let a ← writeNumber places c.first
  let b ← writeNumber places c.second
  let c ← writeNumber places c.third
  return a ++ " " ++ b ++ " " ++ c

namespace Color

def writeHex (color : Color) : Except WriteError String := do
  let srgb := color.convert .srgb
  let r ← hexPair srgb.channels.first
  let g ← hexPair srgb.channels.second
  let b ← hexPair srgb.channels.third
  if srgb.alpha < 1.0 then
    let a ← nearestInt (srgb.alpha * 255.0)
    return "#" ++ r ++ g ++ b ++ String.ofList (Text.hexChars 2 a.toNat)
  return "#" ++ r ++ g ++ b

/-- A channel in the range of the `rgb` function. -/
def clampByte (x : Float) : Float :=
  smaller 255.0 (larger 0.0 (x * 255.0))

def writeRgb (places : Int) (color : Color) : Except WriteError String := do
  let srgb := color.convert .srgb
  let channels ← writeChannels places (srgb.channels.map clampByte)
  return "rgb(" ++ channels ++ (← alphaPart places srgb.alpha) ++ ")"

def writeHsl (places : Int) (color : Color) : Except WriteError String := do
  let hsl := color.convert .hsl
  let h ← writeNumber places hsl.channels.first
  let s ← writeNumber places hsl.channels.second
  let l ← writeNumber places hsl.channels.third
  return "hsl(" ++ h ++ " " ++ s ++ "% " ++ l ++ "%" ++ (← alphaPart places hsl.alpha) ++ ")"

def writeFunction (places : Int) (space : ColorSpace) (color : Color) :
    Except WriteError String := do
  let converted := color.convert space
  let channels ← writeChannels places converted.channels
  return space.name ++ "(" ++ channels ++ (← alphaPart places converted.alpha) ++ ")"

/-- The function of the color's own space. -/
def writeNative (places : Int) (color : Color) : Except WriteError String := do
  match color.space with
  | .srgb => if 1.0 ≤ color.alpha then color.writeHex else color.writeRgb places
  | .hsl => color.writeHsl places
  | .oklch => color.writeFunction places .oklch
  | .oklab => color.writeFunction places .oklab
  | .displayP3 =>
    let channels ← writeChannels places color.channels
    return "color(" ++ color.space.name ++ " " ++ channels ++ (← alphaPart places color.alpha) ++ ")"

/-- A color in a given format, or in that of its own space. -/
def write (color : Color) (format : Option ColorFormat) (places : Int) :
    Except WriteError String :=
  match format with
  | some .hex => color.writeHex
  | some .rgb => color.writeRgb places
  | some .hsl => color.writeHsl places
  | some .oklch => color.writeFunction places .oklch
  | some .oklab => color.writeFunction places .oklab
  | none => color.writeNative places

end Color

end Retouch.Style
