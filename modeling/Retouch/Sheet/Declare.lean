import Retouch.Sheet.Edit
import Retouch.Style.Compare
import Retouch.Transform

/-!
# Verified edits of declarations

An edit names the rule by its selector, and says which value it expects to find; it is refused when
the sheet says otherwise. An edit can also break off after the sheet was changed, when one of its
values cannot be written for the record, so the changed sheet is part of every outcome.
-/
namespace Retouch.Sheet

/-- Why an edit was not made, or not completed. -/
inductive DeclareError where
  | refused (e : TransformError)
  | broken (e : EditError)
  deriving Repr

/-- The sheet after an edit, and the value that was there before, or why there is none. -/
structure Outcome (α : Type) where
  sheet : Sheet
  result : Except DeclareError α

def failure {α : Type} (code : ErrorCode) (message : String) (details : Json.Members) :
    Except DeclareError α :=
  .error (.refused ⟨code, message, some details⟩)

/-- The rule that lists a selector: the first one, or the one nearest to a line. -/
def resolve (sheet : Sheet) (selector : String) (line : Option Int) :
    Except DeclareError (Rule × Nat) :=
  let found := match line with
    | some line => sheet.findNear? selector line defaultTolerance
    | none => sheet.find? selector
  match found with
  | .error e => .error (.broken (.unbalanced e))
  | .ok (some entry) => .ok entry
  | .ok none =>
    if sheet.hasError then
      failure .parseError ("Stylesheet has syntax errors and no rule matches '" ++ selector ++ "'")
        [("selector", .str selector)]
    else failure .selectorNotFound ("No rule found for selector '" ++ selector ++ "'")
        [("selector", .str selector)]

def writeText (value : Style.Value) : Except DeclareError String :=
  value.text.mapError fun e => .broken (.unwritable e)

/-- The current value of a property, when it is close to the one that is expected. -/
def checkPrior (rule : Rule) (property : String) (prior : Style.Value) :
    Except DeclareError Style.Value :=
  match rule.style? property with
  | none =>
    let selector := String.ofList rule.selector
    failure .validationError ("Property '" ++ property ++ "' is not declared in '" ++ selector ++ "'")
      [("property", .str property), ("selector", .str selector)]
  | some current =>
    match current.close prior Style.Value.defaultTolerance with
    | .ok true => .ok current
    | _ => do
      let expected ← writeText prior
      let found ← writeText current
      failure .validationError
        ("Value of '" ++ property ++ "' changed: expected '" ++ expected ++ "', found '" ++ found ++
          "'")
        [("reason", .str "value-mismatch"), ("property", .str property),
          ("expected", .str expected), ("found", .str found)]

/-- Sets a property in the rule of a number, and then writes some values for the record. -/
def setRecorded {α : Type} (sheet : Sheet) (rule : Rule) (index : Nat) (property : String)
    (new : Style.Value) (recorded : List Style.Value) (answer : α) : Outcome α :=
  match writeText new with
  | .error e => ⟨sheet, .error e⟩
  | .ok text =>
    let changed := sheet.set rule property text
    match changed.rule index with
    | .error e => ⟨changed, .error (.broken e)⟩
    | .ok _ =>
      match recorded.mapM writeText with
      | .error e => ⟨changed, .error e⟩
      | .ok _ => ⟨changed, .ok answer⟩

/-- Changes a declaration whose value is as expected; gives the value that was replaced. -/
def updateDeclaration (sheet : Sheet) (selector property : String) (prior new : Style.Value)
    (line : Option Int) : Outcome Style.Value :=
  match sheet.resolve selector line with
  | .error e => ⟨sheet, .error e⟩
  | .ok (rule, index) =>
    match checkPrior rule property prior with
    | .error e => ⟨sheet, .error e⟩
    | .ok previous => sheet.setRecorded rule index property new [previous, new] previous

/-- Adds a declaration, or overwrites the one of the same property, whose value must be as expected
when one is expected; gives the value that was overwritten. -/
def addDeclaration (sheet : Sheet) (selector property : String) (new : Style.Value)
    (prior : Option Style.Value) (line : Option Int) : Outcome (Option Style.Value) :=
  match sheet.resolve selector line with
  | .error e => ⟨sheet, .error e⟩
  | .ok (rule, index) =>
    let checked := match prior with
      | some prior => (checkPrior rule property prior).map some
      | none => .ok (rule.style? property)
    match checked with
    | .error e => ⟨sheet, .error e⟩
    | .ok previous => sheet.setRecorded rule index property new [new] previous

/-- Removes a declaration whose value is as expected; gives the value that was removed. -/
def deleteDeclaration (sheet : Sheet) (selector property : String) (prior : Style.Value)
    (line : Option Int) : Outcome Style.Value :=
  match sheet.resolve selector line with
  | .error e => ⟨sheet, .error e⟩
  | .ok (rule, _) =>
    match checkPrior rule property prior with
    | .error e => ⟨sheet, .error e⟩
    | .ok previous => ⟨(sheet.remove? rule property).getD sheet, .ok previous⟩

end Retouch.Sheet
