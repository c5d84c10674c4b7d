import Retouch.Style.Value
import Retouch.Style.Color.Writer
import Retouch.Style.Reader
import Retouch.Json.Basic

/-!
# Writing and building style values

The text of a value, with choices for the number of decimals, the format of colors, and whether four
values of a box are written in their short form; and values from their parts. A length in an unknown
unit becomes text, and an opacity is brought into range.
-/
namespace Retouch.Style

structure WriteOptions where
  places : Int := Number.defaultPlaces
  format : Option ColorFormat := none
  shorthand : Bool := false

/-- The short form of four box values in the order top, right, bottom, left, if there is one. -/
def collapse? (values : List String) : Option String :=
  match values with
  | [top, right, bottom, left] =>
    if top = right ∧ right = bottom ∧ bottom = left then some top
    else if top = bottom ∧ right = left then some (top ++ " " ++ right)
    else if right = left then some (top ++ " " ++ right ++ " " ++ bottom)
    else none
  | _ => none

/-- Texts with blanks between them. -/
def joinBlanks (texts : List String) : String := String.intercalate " " texts

namespace Value

mutual

/-- The text of a value. -/
def write (options : WriteOptions) : Value → Except WriteError String
  | .unit size u => return (← writeNumber options.places size) ++ u.name
  | .number value => writeNumber options.places value
  | .keyword value => .ok value
  | .unparsed value => .ok value
  | .color value => value.write options.format options.places
  | .var name none => .ok ("var(" ++ name ++ ")")
  | .var name (some fallback) =>
    return "var(" ++ name ++ ", " ++ (← write options fallback) ++ ")"
  | .tuple values => do
    let texts ← writeAll options values
    match options.shorthand, collapse? texts with
    | true, some short => return short
    | _, _ => return joinBlanks texts
termination_by structural value => value

def writeAll (options : WriteOptions) : List Value → Except WriteError (List String)
  | [] => .ok []
  | value :: rest => return (← write options value) :: (← writeAll options rest)
termination_by structural values => values

end

/-- The text of a value without special choices. -/
def text (value : Value) : Except WriteError String := value.write {}

end Value

end Retouch.Style

namespace Retouch.Style.Value

/-- A length; the case of its unit does not matter. -/
def ofLength (size : Float) (unitName : String) : Except WriteError Value :=
  match LengthUnit.ofName? (Text.lower unitName) with
  | some known => .ok (.unit size known)
  | none => return .unparsed ((← writeNumber Number.defaultPlaces size) ++ unitName)

/-- The value that any piece of data stands for: texts are read, all else is kept as it is shown. -/
def ofJson (property : String) : Json → Value
  | .str text => .parse property text
  | .null => .unparsed ""
  | other => .unparsed other.plainText

end Retouch.Style.Value
