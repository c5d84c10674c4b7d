import Retouch.Number.Notation
import Retouch.Text.Case

/-!
# Colors

A color is three channels in one of five spaces, and an opacity. What the channels mean depends on
the space: `srgb` and `display-p3` take red, green and blue from 0 to 1; `hsl` takes degrees and two
percentages; `oklab` a lightness and two axes; `oklch` a lightness, a chroma and degrees.
-/
namespace Retouch.Style

inductive ColorSpace where
  | srgb
  | hsl
  | oklch
  | oklab
  | displayP3
  deriving DecidableEq, Repr, Inhabited

namespace ColorSpace

def all : List ColorSpace := [.srgb, .hsl, .oklch, .oklab, .displayP3]

def name : ColorSpace → String
  | .srgb => "srgb"
  | .hsl => "hsl"
  | .oklch => "oklch"
  | .oklab => "oklab"
  | .displayP3 => "display-p3"

def ofName? (name : String) : Option ColorSpace := all.find? fun space => space.name == name

theorem ofName?_name (space : ColorSpace) : ofName? space.name = some space := by
  cases space <;> decide

end ColorSpace

/-- The three coordinates of a color. -/
structure Channels where
  first : Float
  second : Float
  third : Float
  deriving BEq, Repr, Inhabited

namespace Channels

def map (f : Float → Float) (c : Channels) : Channels := ⟨f c.first, f c.second, f c.third⟩

def toList (c : Channels) : List Float := [c.first, c.second, c.third]

/-- All three are finite. -/
def isFinite (c : Channels) : Bool := c.toList.all Float.isFinite

end Channels

structure Color where
  space : ColorSpace
  channels : Channels
  alpha : Float
  deriving BEq, Repr, Inhabited

/-- An opacity brought into the range from 0 to 1; what is no number becomes 0. -/
def clampAlpha (alpha : Float) : Float :=
  if 0.0 < alpha then (if alpha < 1.0 then alpha else 1.0) else 0.0

/-- A color with its opacity brought into range. -/
def Color.make (space : ColorSpace) (channels : Channels) (alpha : Float) : Color :=
  ⟨space, channels, clampAlpha alpha⟩

/-- The names of colors, with red, green and blue from 0 to 255. -/
def namedColors : List (String × Nat × Nat × Nat) := [
  ("black", 0, 0, 0), ("white", 255, 255, 255), ("red", 255, 0, 0), ("green", 0, 128, 0),
  ("blue", 0, 0, 255), ("yellow", 255, 255, 0), ("orange", 255, 165, 0), ("purple", 128, 0, 128),
  ("pink", 255, 192, 203), ("gray", 128, 128, 128), ("grey", 128, 128, 128),
  ("cyan", 0, 255, 255), ("magenta", 255, 0, 255)]

/-- Words that stand in the place of a color; only the first of them is one. -/
def colorKeywords : List String := ["transparent", "currentcolor", "inherit", "initial", "unset"]

/-- The functions that write a color. -/
def colorFunctions : List String := ["rgb", "rgba", "hsl", "hsla", "oklch", "oklab", "color"]

end Retouch.Style
