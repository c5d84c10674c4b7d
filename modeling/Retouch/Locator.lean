import Retouch.Text.Digit

/-!
# Locators

A locator says where an element of the page comes from: the place of its tag in a markup file, and
the file and selectors of its style rule. An element locator is a file, a line and a column between
colons; the file may hold colons itself. A style locator is a file and selectors that begin with a
dot, the first colon before a dot being the border.
-/
namespace Retouch

structure SourceLocator where
  file : String
  line : Nat
  column : Nat
  styleFile : String := ""
  selectors : List String := []
  deriving DecidableEq, Repr, Inhabited

/-- What is wrong with a locator. -/
inductive LocatorFault where
  | empty
  | emptyStyle
  | fewParts
  | notNumbers
  | noFile
  | belowOne
  | noSelectorMark
  | noFileOrSelectors
  deriving DecidableEq, Repr

def LocatorFault.describe : LocatorFault → String
  | .empty => "empty locator"
  | .emptyStyle => "empty style locator"
  | .fewParts => "expected <file>:<line>:<column>"
  | .notNumbers => "line and column must be integers"
  | .noFile => "missing file path"
  | .belowOne => "line and column are 1-indexed"
  | .noSelectorMark => "expected <file>:.<selector>"
  | .noFileOrSelectors => "missing file or selectors"

structure LocatorError where
  locator : String
  fault : LocatorFault
  deriving DecidableEq, Repr

def LocatorError.message (e : LocatorError) : String :=
  "Invalid locator '" ++ e.locator ++ "': " ++ e.fault.describe

namespace SourceLocator

/-- Cuts off the last two of the parts between colons. -/
def lastTwo (cs : List Char) : Option (List Char × List Char × List Char) :=
  let cut (cs : List Char) : Option (List Char × List Char) :=
    match cs.reverse.span (· ≠ ':') with
    | (back, _ :: front) => some (front.reverse, back.reverse)
    | (_, []) => none
  match cut cs with
  | some (front, column) =>
    match cut front with
    | some (file, line) => some (file, line, column)
    | none => none
  | none => none

/-- File, line and column of an element locator. -/
def parseElement (oid : String) : Except LocatorError (String × Nat × Nat) :=
  let fail (fault : LocatorFault) : Except LocatorError (String × Nat × Nat) := .error ⟨oid, fault⟩
  if oid = "" then fail .empty
  else match lastTwo oid.toList with
    | none => fail .fewParts
    | some (file, line, column) =>
      match Text.integer? line, Text.integer? column with
      | some line, some column =>
        if file.isEmpty then fail .noFile
        else if line < 1 ∨ column < 1 then fail .belowOne
        else .ok (String.ofList file, line.toNat, column.toNat)
      | _, _ => fail .notNumbers

/-- Cuts at the first colon before a dot; the dot belongs to the second part. -/
def cutAtMark : List Char → Option (List Char × List Char)
  | ':' :: '.' :: rest => some ([], '.' :: rest)
  | c :: rest => (cutAtMark rest).map fun (front, back) => (c :: front, back)
  | [] => none

/-- File and selectors of a style locator. -/
def parseStyle (css : String) : Except LocatorError (String × List String) :=
  if css = "" then .error ⟨css, .emptyStyle⟩
  else match cutAtMark css.toList with
    | none => .error ⟨css, .noSelectorMark⟩
    | some (file, rest) =>
      let selectors := Text.words rest
      if file.isEmpty || selectors.isEmpty then .error ⟨css, .noFileOrSelectors⟩
      else .ok (String.ofList file, selectors.map String.ofList)

/-- A locator from an element locator and, unless it is empty, a style locator. -/
def parse (oid : String) (css : String) : Except LocatorError SourceLocator := do
  let (file, line, column) ← parseElement oid
  if css = "" then return ⟨file, line, column, "", []⟩
  let (styleFile, selectors) ← parseStyle css
  return ⟨file, line, column, styleFile, selectors⟩

end SourceLocator

end Retouch
