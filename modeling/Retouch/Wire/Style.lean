import Retouch.Wire.Scalar
import Retouch.Style.Value

/-!
# Style values on the wire

A style value travels as an object whose `type` names its shape.
-/
namespace Retouch.Wire

open Retouch.Style

def shapes : List String :=
  ["unit", "number", "keyword", "color", "var", "tuple", "unparsed"]

def lengthUnit : Json → Checked LengthUnit :=
  oneOf (LengthUnit.all.map LengthUnit.name) LengthUnit.ofName?

def colorSpace : Json → Checked ColorSpace :=
  oneOf (ColorSpace.all.map ColorSpace.name) ColorSpace.ofName?

/-- Three numbers; what is missing is named by its position. -/
def channels : Json → Checked Channels
  | .arr items =>
    let at' (n : Nat) : Checked Float :=
      match items[n]? with
      | some item => (float item).under (.index n)
      | none => (Checked.fail .missing (.arr items)).under (.index n)
    if 3 < items.length then .fail (.tooLong 3 items.length) (.arr items)
    else Channels.mk <$> at' 0 <*> at' 1 <*> at' 2
  | input => .fail .notTuple input

def unitValue (members : Json.Members) : Checked Value :=
  Value.unit <$> field members ["value"] float <*> field members ["unit"] lengthUnit

def colorValue (members : Json.Members) : Checked Value :=
  (fun space channels alpha => Value.color ⟨space, channels, alpha⟩) <$>
    field members ["colorSpace", "color_space"] colorSpace <*>
    field members ["channels"] channels <*>
    fieldOr members ["alpha"] 1.0 unitFloat

/-- References and tuples nest this deep at most. -/
def nestingLimit : Nat := 254

/-- A style value with `levels` of references and tuples to spare. -/
def valueAt (levels : Nat) (input : Json) : Checked Value :=
  match input with
  | .obj members =>
    match members.lookup "type" with
    | none => .fail .noTag input
    | some (.str "unit") => (unitValue members).under (.name "unit")
    | some (.str "number") =>
      (Value.number <$> field members ["value"] float).under (.name "number")
    | some (.str "keyword") =>
      (Value.keyword <$> field members ["value"] string).under (.name "keyword")
    | some (.str "color") => (colorValue members).under (.name "color")
    | some (.str "var") =>
      match levels with
      | 0 => (Checked.fail .tooDeep input).under (.name "var")
      | levels + 1 =>
        (Value.var <$> field members ["name"] string <*>
          fieldOr members ["fallback"] none (optional (valueAt levels))).under (.name "var")
    | some (.str "tuple") =>
      match levels with
      | 0 => (Checked.fail .tooDeep input).under (.name "tuple")
      | levels + 1 =>
        (Value.tuple <$> field members ["values"] (tuple (valueAt levels))).under (.name "tuple")
    | some (.str "unparsed") =>
      (Value.unparsed <$> field members ["value"] string).under (.name "unparsed")
    | some tag => .fail (.unknownTag tag.plainText shapes) input
  | _ => .fail .notObject input

def value (input : Json) : Checked Value := valueAt nestingLimit input

/-- The name under which a style value is checked by itself. -/
def valueTitle : String :=
  "tagged-union[UnitValue,NumberValue,KeywordValue,ColorValue,VarValue,TupleValue,UnparsedValue]"

end Retouch.Wire

namespace Retouch.Style

def Channels.toJson (c : Channels) : Json := .arr (c.toList.map .real)

def Color.toJson (color : Color) : Json :=
  .obj [("type", .str "color"), ("colorSpace", .str color.space.name),
    ("channels", color.channels.toJson), ("alpha", .real color.alpha)]

namespace Value

mutual

/-- The object that a style value travels as. -/
def toJson : Value → Json
  | .unit size u => .obj [("type", .str "unit"), ("value", .real size), ("unit", .str u.name)]
  | .number size => .obj [("type", .str "number"), ("value", .real size)]
  | .keyword word => .obj [("type", .str "keyword"), ("value", .str word)]
  | .color c => c.toJson
  | .var name none => .obj [("type", .str "var"), ("name", .str name)]
  | .var name (some fallback) =>
    .obj [("type", .str "var"), ("name", .str name), ("fallback", toJson fallback)]
  | .tuple values => .obj [("type", .str "tuple"), ("values", .arr (allToJson values))]
  | .unparsed text => .obj [("type", .str "unparsed"), ("value", .str text)]
termination_by structural value => value

def allToJson : List Value → List Json
  | [] => []
  | value :: rest => toJson value :: allToJson rest
termination_by structural values => values

end

end Value

end Retouch.Style
