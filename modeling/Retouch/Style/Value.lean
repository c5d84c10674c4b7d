import Retouch.Style.Color

/-!
# Style values

A style value is what one declaration of a stylesheet sets: a length, a number, a word, a color, a
reference to a variable, several values in a row, or text that is kept as it stands.
-/
namespace Retouch.Style

/-- The units of length that are told apart from other text. -/
inductive LengthUnit where
  | px
  | rem
  | em
  | percent
  | vh
  | vw
  | vmin
  | vmax
  deriving DecidableEq, Repr, Inhabited

namespace LengthUnit

def all : List LengthUnit := [.px, .rem, .em, .percent, .vh, .vw, .vmin, .vmax]

def name : LengthUnit → String
  | .px => "px"
  | .rem => "rem"
  | .em => "em"
  | .percent => "%"
  | .vh => "vh"
  | .vw => "vw"
  | .vmin => "vmin"
  | .vmax => "vmax"

def ofName? (name : String) : Option LengthUnit := all.find? fun unit => unit.name == name

theorem ofName?_name (unit : LengthUnit) : ofName? unit.name = some unit := by
  cases unit <;> decide

end LengthUnit

inductive Value where
  | unit (value : Float) (unit : LengthUnit)
  | number (value : Float)
  | keyword (value : String)
  | color (value : Color)
  | var (name : String) (fallback : Option Value)
  | tuple (values : List Value)
  | unparsed (value : String)
  deriving Inhabited, Repr

namespace Value

/-- The seven shapes. -/
inductive Shape where
  | unit
  | number
  | keyword
  | color
  | var
  | tuple
  | unparsed
  deriving DecidableEq, Repr

def shape : Value → Shape
  | .unit .. => .unit
  | .number _ => .number
  | .keyword _ => .keyword
  | .color _ => .color
  | .var .. => .var
  | .tuple _ => .tuple
  | .unparsed _ => .unparsed

def Shape.name : Shape → String
  | .unit => "unit"
  | .number => "number"
  | .keyword => "keyword"
  | .color => "color"
  | .var => "var"
  | .tuple => "tuple"
  | .unparsed => "unparsed"

/-- The members of a tuple, or the value alone. -/
def members : Value → List Value
  | .tuple values => values
  | value => [value]

end Value

end Retouch.Style
