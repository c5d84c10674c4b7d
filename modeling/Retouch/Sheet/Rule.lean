import Retouch.Sheet.Item
import Retouch.Style.Split
import Retouch.Text.Case

/-!
# Rules of a stylesheet

A style rule with its place in the text, its declarations and the at-rule around it, and the rules of a
row of items in the order of the document, nested ones included. Main statement: `placedFrom_value`, the
value of a declaration is the text between its offsets.
-/
namespace Retouch.Sheet

/-- An at-rule around a rule. -/
structure AtRule where
  name : String
  params : String
  start : Nat
  deriving DecidableEq, Repr

/-- A declaration with its place in a text. -/
structure Placed where
  property : List Char
  /-- All that stands between the colon and the mark of importance or the end. -/
  value : List Char
  important : Bool
  /-- Whether a semicolon ends it. -/
  ended : Bool
  start : Nat
  stop : Nat
  valueStart : Nat
  valueStop : Nat
  deriving DecidableEq, Repr

/-- A style rule with its place in a text. -/
structure Rule where
  start : Nat
  /-- The selectors as they stand in the text. -/
  selector : List Char
  /-- The offset of the brace that opens the rule. -/
  opening : Nat
  /-- Where the inside of the rule begins, behind the brace. -/
  innerStart : Nat
  /-- The offset of the brace that closes the rule. -/
  closing : Nat
  /-- The declarations that stand directly in the rule, in order. -/
  declarations : List Placed
  container : Option AtRule
  deriving DecidableEq, Repr

/-- The selectors one by one, cut at commas outside parentheses and quotes. -/
def Rule.selectors (rule : Rule) : Except Style.Unbalanced (List (List Char)) :=
  match Style.splitTopLevel (.char ',') rule.selector with
  | some parts => .ok (parts.filter fun part => !part.isEmpty)
  | none => .error ⟨String.ofList rule.selector⟩

/-! ## The rules of items -/

def placeDeclaration (offset : Nat) (d : DeclarationItem) : Placed :=
  let valueStart := offset + d.name.length + d.gap.length + 1
  { property := d.name, value := d.value, important := d.isImportant, ended := d.ended
    start := offset, stop := offset + d.text.length
    valueStart, valueStop := valueStart + d.value.length }

/-- The declarations among items that begin at an offset. -/
def placedFrom (offset : Nat) : List Item → List Placed
  | [] => []
  | .declaration d :: rest => placeDeclaration offset d :: placedFrom (offset + d.text.length) rest
  | item :: rest => placedFrom (offset + item.text.length) rest

/-- The rule of a block that begins at an offset. -/
def placeRule (container : Option AtRule) (offset : Nat) (head gap : List Char) (inner : List Item) :
    Rule :=
  let opening := offset + head.length + gap.length
  { start := offset, selector := Text.trim head, opening, innerStart := opening + 1
    closing := opening + 1 + (textOf inner).length
    declarations := placedFrom (opening + 1) inner, container }

/-- The at-rule that a keyword and what stands behind it belong to, as it is named to others. -/
def atRule? (keyword params : List Char) (start : Nat) : Option AtRule :=
  if keyword = scopeKeyword then none
  else some {
    name := Text.lower (String.ofList (keyword.drop 1))
    params := String.ofList (Text.trim params)
    start }

/-- The at-rule around the items of a block that begins at an offset. -/
def BlockKind.container? (kind : BlockKind) (head gap : List Char) (start : Nat) : Option AtRule :=
  match kind with
  | .at keyword => atRule? keyword (head.drop keyword.length ++ gap) start
  | _ => none

mutual

/-- The rules of an item that begins at an offset, directly inside `container`. -/
def rulesOf (container : Option AtRule) (offset : Nat) : Item → List Rule
  | .block kind head gap inner =>
    (if kind = .rule then [placeRule container offset head gap inner] else []) ++
      rulesFrom (kind.container? head gap offset) (offset + head.length + gap.length + 1) inner
  | .gap _ => []
  | .declaration _ => []
  | .statement _ => []
termination_by structural item => item

/-- The rules of items that begin at an offset. -/
def rulesFrom (container : Option AtRule) (offset : Nat) : List Item → List Rule
  | [] => []
  | item :: rest =>
    rulesOf container offset item ++ rulesFrom container (offset + item.text.length) rest
termination_by structural items => items

end

/-- The value of a declaration among items is what stands between its offsets in the text of these
items. -/
theorem placedFrom_value (before after : List Char) (items : List Item) (p : Placed)
    (member : p ∈ placedFrom before.length items) :
    ((before ++ textOf items ++ after).take p.valueStop).drop p.valueStart = p.value := by
  induction items generalizing before with
  | nil => simp [placedFrom] at member
  | cons item rest ih =>
    have later (member : p ∈ placedFrom (before.length + item.text.length) rest) :
        ((before ++ textOf (item :: rest) ++ after).take p.valueStop).drop p.valueStart = p.value := by
      have := ih (before ++ item.text) (by simpa using member)
      simpa [textOf] using this
    cases item with
    | declaration d =>
      rcases List.mem_cons.mp member with here | there
      · subst here
        have split : before ++ textOf (.declaration d :: rest) ++ after =
            (before ++ d.name ++ d.gap ++ [':']) ++ (d.value ++
              (d.mark ++ (if d.ended then [';'] else []) ++ textOf rest ++ after)) := by
          simp [textOf, Item.text, DeclarationItem.text]
        have offset : (placeDeclaration before.length d).valueStart =
            (before ++ d.name ++ d.gap ++ [':']).length := by
          simp [placeDeclaration]
          omega
        have stop : (placeDeclaration before.length d).valueStop =
            (before ++ d.name ++ d.gap ++ [':']).length + d.value.length := by
          rw [← offset]; rfl
        rw [split, offset, stop, List.take_length_add_append, List.drop_left]
        simp [placeDeclaration]
      · exact later there
    | gap text => exact later member
    | statement text => exact later member
    | block kind head gap inner => exact later member

end Retouch.Sheet
