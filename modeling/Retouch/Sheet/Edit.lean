import Retouch.Sheet.Document
import Retouch.Style.Build

/-!
# Edits of a stylesheet

A declaration is changed, appended or removed by replacing the characters it stands on, and a rule is
added at the end. Everything else keeps its form: an appended declaration takes the indent of the one
before it, a changed value the blanks around the old one, and a removed declaration takes its line
along when it has the line for itself.
-/
namespace Retouch.Sheet

/-- Why an edit of a sheet broke off. -/
inductive EditError where
  /-- The rule is not in the sheet, or no longer. -/
  | ruleGone
  | unbalanced (e : Style.Unbalanced)
  | unwritable (e : Style.WriteError)
  deriving DecidableEq, Repr

def EditError.message : EditError → String
  | .ruleGone => "list index out of range"
  | .unbalanced e => e.message
  | .unwritable e => e.message

/-- A declaration as it was read. -/
structure Snapshot where
  property : String
  value : String
  important : Bool
  position : Text.Position
  deriving DecidableEq, Repr

def rule (sheet : Sheet) (index : Nat) : Except EditError Rule :=
  match sheet.rules[index]? with
  | some rule => .ok rule
  | none => .error .ruleGone

/-- Whether two names of properties are the same but for case. -/
def sameProperty (a b : List Char) : Bool := Text.lowerChars a == Text.lowerChars b

/-- The first declaration of a property. -/
def Rule.declaration? (rule : Rule) (property : String) : Option Placed :=
  rule.declarations.find? fun p => sameProperty p.property property.toList

/-- The value of a declaration without the blanks around it. -/
def Placed.valueText (p : Placed) : String := String.ofList (Text.trim p.value)

def snapshot (sheet : Sheet) (p : Placed) : Snapshot :=
  ⟨String.ofList p.property, p.valueText, p.important, sheet.position p.start⟩

def get? (sheet : Sheet) (rule : Rule) (property : String) : Option Snapshot :=
  (rule.declaration? property).map sheet.snapshot

/-- Writes a property: in its place when it is there, at the end when it is new. -/
def putProperty {α : Type} (key : String) (value : α) : List (String × α) → List (String × α)
  | [] => [(key, value)]
  | entry :: rest =>
    if entry.1 == key then (key, value) :: rest else entry :: putProperty key value rest

/-- The properties of a rule with their values; of equal names the last value counts. -/
def Rule.values (rule : Rule) : List (String × String) :=
  rule.declarations.foldl
    (fun found p => putProperty (String.ofList p.property) p.valueText found) []

/-- The properties of a rule with the values that they stand for. -/
def Rule.styles (rule : Rule) : List (String × Style.Value) :=
  rule.values.map fun (property, text) => (property, Style.Value.parse property text)

/-- The value of a property in a rule. -/
def Rule.style? (rule : Rule) (property : String) : Option Style.Value :=
  (rule.declaration? property).map fun p => Style.Value.parse property p.valueText

/-! ## Writing -/

/-- The offset where the line of an offset begins. -/
def lineStart (cs : List Char) (offset : Nat) : Nat :=
  offset - ((cs.take offset).reverse.takeWhile (· ≠ '\n')).length

/-- The offset of the line feed at or behind an offset, or the end of the text. -/
def lineStop (cs : List Char) (offset : Nat) : Nat :=
  offset + ((cs.drop offset).takeWhile (· ≠ '\n')).length

/-- The blanks at the beginning of a line, before an offset at most. -/
def indentAt (cs : List Char) (offset : Nat) : List Char :=
  (between cs (lineStart cs offset) offset).takeWhile Text.isPlainBlank

def line (property value : String) : List Char :=
  property.toList ++ ':' :: ' ' :: value.toList ++ [';']

/-- One step of indent. -/
def indentStep : List Char := [' ', ' ']

/-- Appends a declaration to a rule: behind the last one, or inside the empty rule. -/
def append (sheet : Sheet) (rule : Rule) (property value : String) : Sheet :=
  let added := line property value
  match rule.declarations.getLast? with
  | some last =>
    let mark := if last.ended then [] else [';']
    if (sheet.position last.start).line = (sheet.position rule.opening).line then
      sheet.splice last.stop last.stop (mark ++ ' ' :: added)
    else
      sheet.splice last.stop last.stop
        (mark ++ '\n' :: indentAt sheet.source last.start ++ added)
  | none =>
    if (between sheet.source rule.innerStart rule.closing).all Text.isPlainBlank then
      let indent := indentAt sheet.source rule.start
      sheet.splice rule.innerStart rule.closing
        ('\n' :: indent ++ indentStep ++ added ++ '\n' :: indent)
    else
      sheet.splice rule.closing rule.closing (' ' :: added ++ [' '])

/-- Puts a value in the place of another one, between the same blanks. -/
def replaceValue (sheet : Sheet) (p : Placed) (value : String) : Sheet :=
  let leading := p.value.takeWhile Text.isPlainBlank
  let trailing := p.value.drop (Text.trimEndBy Text.isPlainBlank p.value).length
  sheet.splice p.valueStart p.valueStop
    ((if leading.isEmpty then [' '] else leading) ++ value.toList ++ trailing)

/-- Sets a property in a rule. -/
def set (sheet : Sheet) (rule : Rule) (property value : String) : Sheet :=
  match rule.declaration? property with
  | none => sheet.append rule property value
  | some p => sheet.replaceValue p value

/-- Removes a declaration, with its line when nothing else stands on it, and with the blanks behind it
otherwise. -/
def removePlaced (sheet : Sheet) (p : Placed) : Sheet :=
  let cs := sheet.source
  let first := lineStart cs p.start
  let last := lineStop cs p.stop
  if (between cs first p.start).all Text.isPlainBlank &&
      (between cs p.stop last).all Text.isPlainBlank then
    sheet.splice first (min (last + 1) cs.length) []
  else
    let blanks := ((cs.drop p.stop).takeWhile fun c => c = ' ' || c = '\t').length
    sheet.splice p.start (p.stop + blanks) []

/-- The sheet without the first declaration of a property, if there is one. -/
def remove? (sheet : Sheet) (rule : Rule) (property : String) : Option Sheet :=
  (rule.declaration? property).map sheet.removePlaced

/-! ## New rules -/

/-- The text of a rule. -/
def ruleText (selector : String) (declarations : List (String × String)) : List Char :=
  selector.toList ++ " \x7b\n".toList ++
    (declarations.flatMap fun (property, value) =>
      indentStep ++ line property value ++ ['\n']) ++
    "\x7d\n".toList

/-- What stands between the end of the sheet and a new rule. -/
def separator (cs : List Char) : List Char :=
  if cs.all Text.isPlainBlank then []
  else match cs.reverse with
    | '\n' :: '\n' :: _ => []
    | '\n' :: _ => ['\n']
    | _ => ['\n', '\n']

/-- Adds a rule at the end of the sheet. -/
def addRule (sheet : Sheet) (selector : String) (declarations : List (String × String)) : Sheet :=
  ofChars (sheet.source ++ separator sheet.source ++ ruleText selector declarations)

end Retouch.Sheet
