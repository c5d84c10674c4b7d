import Retouch.Sheet.Edit
import Retouch.Wire.Style

/-!
# Sheets on the wire

Rules and declarations as objects, with the line and column where they begin.
-/
namespace Retouch

def Text.Position.toJson (p : Text.Position) : Json := .arr [.int p.line, .int p.column]

namespace Sheet

/-- A rule with its number. -/
def ruleJson (sheet : Sheet) (rule : Rule) (index : Nat) : Except Style.Unbalanced Json := do
  let parts ← rule.selectors
  let chars (cs : List Char) : Json := .str (String.ofList cs)
  return .obj [("index", .int index), ("selector", chars rule.selector),
    ("selectors", .arr (parts.map chars)), ("at", (sheet.position rule.start).toJson)]

def Snapshot.toJson (s : Snapshot) : Json :=
  .obj [("prop", .str s.property), ("value", .str s.value), ("important", .bool s.important),
    ("at", s.position.toJson)]

def atRuleJson (sheet : Sheet) (rule : AtRule) : Json :=
  .obj [("name", .str rule.name), ("params", .str rule.params),
    ("at", (sheet.position rule.start).toJson)]

/-- What surrounds a rule. -/
def contextJson (sheet : Sheet) (rule : Rule) : Json :=
  let media := rule.container.filter fun around => around.name = "media"
  .obj [("at_rule", (rule.container.map sheet.atRuleJson).getD .null),
    ("in_media", .bool media.isSome), ("media", (media.map fun around => .str around.params).getD .null),
    ("at", (sheet.position rule.start).toJson)]

end Sheet

end Retouch
