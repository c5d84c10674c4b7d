import Retouch.Proofs.Sheet.Entries

/-!
# Edits that are made as a whole or not at all

A verified edit of a declaration finds its rule, compares the value that it expects, and replaces a text of the
sheet. All that is checked in front of this leaves the sheet as it was; but the edit can also break off behind it,
where it looks for the rule once more, and writes the values that were exchanged for the record.

## Main statements

* `DeclarationEdit.verified`: an edit that is made has found the value that it expects.
* `DeclarationEdit.atomic_iff`: an edit is made, or leaves the sheet as it was, unless it breaks off late.

## Proof strategy

An edit is a check of the sheet and, when it passes, `setRecorded` or a removal. `setRecorded_cases` says all that
`setRecorded` can come to.
-/
namespace Retouch.Sheet

variable {α : Type} {sheet : Sheet} {selector property : String} {line : Option Int} {rule : Rule} {index : Nat}

/-! ### Outcomes -/

/-- The edit was made, or the text of the sheet and its rules are what they were. -/
def Outcome.Atomic (sheet : Sheet) (outcome : Outcome α) : Prop :=
  (∃ a, outcome.result = .ok a) ∨ outcome.sheet.source = sheet.source ∧ outcome.sheet.rules = sheet.rules

theorem source_injective : Function.Injective Sheet.source := by
  rintro ⟨source, content, read⟩ ⟨source', content', read'⟩ same
  obtain rfl : source = source' := same
  rw [Sheet.mk.injEq, read, read']
  exact ⟨rfl, rfl⟩

/-- A sheet with the same text is the same sheet. -/
theorem Outcome.atomic_iff_source {outcome : Outcome α} : outcome.Atomic sheet ↔
    (∃ a, outcome.result = .ok a) ∨ outcome.sheet.source = sheet.source := by
  refine or_congr_right ⟨And.left, fun same => ⟨same, ?_⟩⟩
  rw [source_injective same]

theorem Outcome.atomic_of_error (e : DeclareError) : (⟨sheet, .error e⟩ : Outcome α).Atomic sheet := .inr ⟨rfl, rfl⟩

/-! ### The edits -/

/-- A verified edit of a declaration. -/
inductive DeclarationEdit where
  | update (prior new : Style.Value)
  | add (new : Style.Value) (prior : Option Style.Value)
  | delete (prior : Style.Value)

namespace DeclarationEdit

/-- The sheet after the edit, and the value that was there before. -/
def apply (sheet : Sheet) (selector property : String) (line : Option Int) :
    DeclarationEdit → Outcome (Option Style.Value)
  | .update prior new =>
    let outcome := sheet.updateDeclaration selector property prior new line
    ⟨outcome.sheet, outcome.result.map some⟩
  | .add new prior => sheet.addDeclaration selector property new prior line
  | .delete prior =>
    let outcome := sheet.deleteDeclaration selector property prior line
    ⟨outcome.sheet, outcome.result.map some⟩

/-- The value that the edit expects to find. -/
def prior? : DeclarationEdit → Option Style.Value
  | .update prior _ => some prior
  | .add _ prior => prior
  | .delete prior => some prior

/-- The value that the edit writes into the sheet. -/
def new? : DeclarationEdit → Option Style.Value
  | .update _ new => some new
  | .add new _ => some new
  | .delete _ => none

/-- What the edit does with the rule that it has found, when the check of its value has passed. -/
def proceed (sheet : Sheet) (rule : Rule) (index : Nat) (property : String) (current : Option Style.Value) :
    DeclarationEdit → Outcome (Option Style.Value)
  | .update _ new => sheet.setRecorded rule index property new (current.toList ++ [new]) current
  | .add new _ => sheet.setRecorded rule index property new [new] current
  | .delete _ => ⟨(sheet.remove? rule property).getD sheet, .ok current⟩

/-- The current value of the property, when it is close to the one that the edit expects. -/
def check (rule : Rule) (property : String) (edit : DeclarationEdit) : Except DeclareError (Option Style.Value) :=
  match edit.prior? with
  | some prior => (checkPrior rule property prior).map some
  | none => .ok (rule.style? property)

/-- The value that an update replaces cannot be written for the record. -/
def Unrecordable (current : Option Style.Value) : DeclarationEdit → Prop
  | .update _ _ => ∃ value ∈ current, ¬Writable value
  | .add _ _ => False
  | .delete _ => False

/-- The edit changes the text of the sheet and breaks off behind that: its rule is no longer there, or the value that
was replaced cannot be written. -/
def BreaksLate (sheet : Sheet) (selector property : String) (line : Option Int) (edit : DeclarationEdit) : Prop :=
  ∃ rule index current new text, sheet.resolve selector line = .ok (rule, index) ∧
    edit.check rule property = .ok current ∧ edit.new? = some new ∧ new.text = .ok text ∧
    (sheet.set rule property text).source ≠ sheet.source ∧
      ((sheet.set rule property text).rules.length ≤ index ∨ edit.Unrecordable current)

variable {edit : DeclarationEdit} {current : Option Style.Value}

end DeclarationEdit

/-! ### What is written and recorded -/

/-- The sheet is changed when the new value can be written, whatever comes of the edit. -/
theorem setRecorded_sheet {new : Style.Value} {recorded : List Style.Value} {answer : α} {text : String}
    (written : new.text = .ok text) :
    (sheet.setRecorded rule index property new recorded answer).sheet = sheet.set rule property text := by
  unfold setRecorded
  rw [writeText_eq_ok.mpr written]
  dsimp only
  split
  · rfl
  · split <;> rfl

/-- A property is set and recorded as a whole or not at all, just if the new value cannot be written, or the text
stays the same, or the rule is still there and all values can be written. -/
theorem setRecorded_atomic_iff {new : Style.Value} {recorded : List Style.Value} {answer : α} :
    (sheet.setRecorded rule index property new recorded answer).Atomic sheet ↔
      ∀ text, new.text = .ok text → (sheet.set rule property text).source = sheet.source ∨
        index < (sheet.set rule property text).rules.length ∧ ∀ value ∈ recorded, Writable value := by
  rcases written : new.text with e | text
  · have refused : sheet.setRecorded rule index property new recorded answer =
        ⟨sheet, .error (.broken (.unwritable e))⟩ := by
      unfold setRecorded writeText
      rw [written]
      rfl
    simp [refused, Outcome.atomic_of_error]
  · -- The edit is made just if it is recorded, and the sheet is changed in any case.
    have made : (∃ a, (sheet.setRecorded rule index property new recorded answer).result = .ok a) ↔
        index < (sheet.set rule property text).rules.length ∧ ∀ value ∈ recorded, Writable value := by
      constructor
      · rintro ⟨a, done⟩
        rcases outcome : sheet.setRecorded rule index property new recorded answer with ⟨after, result⟩
        rw [outcome] at done
        obtain rfl : result = .ok a := done
        obtain ⟨text', written', rfl, there, writable, -⟩ := setRecorded_eq_ok.mp outcome
        obtain rfl : text = text' := Except.ok.inj (written.symm.trans written')
        exact ⟨by simpa using there, writable⟩
      · rintro ⟨there, writable⟩
        have done := setRecorded_eq_ok.mpr ⟨text, written, rfl, by simpa using there, writable, Eq.refl answer⟩
        exact ⟨answer, congrArg Outcome.result done⟩
    rw [Outcome.atomic_iff_source, made, setRecorded_sheet written]
    simp [or_comm]

/-! ### The edits as a whole -/

namespace DeclarationEdit

variable {edit : DeclarationEdit} {current : Option Style.Value}

theorem setRecorded_map {β : Type} {new : Style.Value} {recorded : List Style.Value} {answer : α} (f : α → β) :
    (⟨(sheet.setRecorded rule index property new recorded answer).sheet,
        (sheet.setRecorded rule index property new recorded answer).result.map f⟩ : Outcome β) =
      sheet.setRecorded rule index property new recorded (f answer) := by
  unfold setRecorded
  split
  · rfl
  · dsimp only
    split
    · rfl
    · split <;> rfl

/-- An edit finds its rule, checks the value that it expects, and goes on when both are there. -/
theorem apply_eq (sheet : Sheet) (selector property : String) (line : Option Int) (edit : DeclarationEdit) :
    edit.apply sheet selector property line =
      match sheet.resolve selector line with
      | .error e => ⟨sheet, .error e⟩
      | .ok (rule, index) =>
        match edit.check rule property with
        | .error e => ⟨sheet, .error e⟩
        | .ok current => edit.proceed sheet rule index property current := by
  rcases found : sheet.resolve selector line with e | ⟨rule, index⟩
  · cases edit <;> simp [apply, updateDeclaration, addDeclaration, deleteDeclaration, found, Except.map]
  · dsimp only
    cases edit with
    | update prior new =>
      simp only [apply, updateDeclaration, found, check, prior?]
      cases checkPrior rule property prior with
      | error e => rfl
      | ok previous => exact setRecorded_map some
    | add new prior =>
      simp only [apply, addDeclaration, found, check, prior?]
      cases prior with
      | none => rfl
      | some prior => cases checkPrior rule property prior <;> rfl
    | delete prior =>
      simp only [apply, deleteDeclaration, found, check, prior?]
      cases checkPrior rule property prior <;> rfl

/-- When the check passes and a value is expected, the rule has a value close to it. -/
theorem close_of_check {prior : Style.Value} (expects : edit.prior? = some prior)
    (passed : edit.check rule property = .ok current) :
    ∃ value, current = some value ∧ rule.style? property = some value ∧
      value.close prior Style.Value.defaultTolerance = .ok true := by
  rw [check, expects] at passed
  dsimp only at passed
  cases checked : checkPrior rule property prior with
  | error e =>
    rw [checked] at passed
    cases passed
  | ok value =>
    rw [checked] at passed
    obtain ⟨declared, close⟩ := checkPrior_eq_ok.mp checked
    exact ⟨value, (Except.ok.inj passed).symm, declared, close⟩

/-- An edit that is made has found the value that it expects. -/
theorem verified {prior : Style.Value} {a : Option Style.Value} (expects : edit.prior? = some prior)
    (made : (edit.apply sheet selector property line).result = .ok a) :
    ∃ rule index value, sheet.resolve selector line = .ok (rule, index) ∧ rule.style? property = some value ∧
      value.close prior Style.Value.defaultTolerance = .ok true := by
  rw [apply_eq] at made
  split at made
  · cases made
  · rename_i rule index found
    split at made
    · cases made
    · rename_i current passed
      obtain ⟨value, -, declared, close⟩ := close_of_check expects passed
      exact ⟨rule, index, value, found, declared, close⟩

/-- When its check has passed, an edit is made as a whole or not at all, unless it breaks off behind a change of the
text. -/
theorem proceed_atomic_iff (passed : edit.check rule property = .ok current) :
    (edit.proceed sheet rule index property current).Atomic sheet ↔
      ∀ new text, edit.new? = some new → new.text = .ok text →
        (sheet.set rule property text).source = sheet.source ∨
          index < (sheet.set rule property text).rules.length ∧ ¬edit.Unrecordable current := by
  cases edit with
  | update prior new =>
    have expects : (DeclarationEdit.update prior new).prior? = some prior := rfl
    obtain ⟨value, rfl, -⟩ := close_of_check expects passed
    rw [proceed, setRecorded_atomic_iff]
    constructor
    · rintro recorded _ text ⟨⟩ written
      refine (recorded text written).imp_right fun ⟨there, writable⟩ => ⟨there, ?_⟩
      rintro ⟨_, ⟨⟩, unwritable⟩
      exact unwritable (writable value (by simp))
    · intro recorded text written
      refine (recorded new text rfl written).imp_right fun ⟨there, recordable⟩ => ⟨there, ?_⟩
      have old : Writable value := Classical.not_not.mp fun unwritable => recordable ⟨value, rfl, unwritable⟩
      simpa using ⟨old, text, written⟩
  | add new prior =>
    rw [proceed, setRecorded_atomic_iff]
    constructor
    · rintro recorded _ text ⟨⟩ written
      exact (recorded text written).imp_right fun both => ⟨both.1, id⟩
    · intro recorded text written
      refine (recorded new text rfl written).imp_right fun both => ⟨both.1, ?_⟩
      simpa using ⟨text, written⟩
  | delete prior => exact iff_of_true (.inl ⟨current, rfl⟩) fun new text none => by cases none

end DeclarationEdit

/-- A verified edit of a declaration that is made has found a value within the tolerance of the one that it expects;
and it is made, or leaves the text of the sheet and its rules as they were, just if it does not break off behind a
change of the text. -/
theorem DeclarationEdit.atomic_iff (sheet : Sheet) (selector property : String) (line : Option Int)
    (edit : DeclarationEdit) :
    (∀ prior a, edit.prior? = some prior → (edit.apply sheet selector property line).result = .ok a →
      ∃ rule index value, sheet.resolve selector line = .ok (rule, index) ∧ rule.style? property = some value ∧
        value.close prior Style.Value.defaultTolerance = .ok true) ∧
    ((edit.apply sheet selector property line).Atomic sheet ↔ ¬edit.BreaksLate sheet selector property line) := by
  refine ⟨fun prior a expects made => verified expects made, ?_⟩
  unfold BreaksLate
  rw [apply_eq]
  split
  · rename_i e found
    refine iff_of_true (Outcome.atomic_of_error e) ?_
    rintro ⟨rule, index, -, -, -, found', -⟩
    rw [found] at found'
    cases found'
  · rename_i rule index found
    split
    · rename_i e refused
      refine iff_of_true (Outcome.atomic_of_error e) ?_
      rintro ⟨rule', index', current, -, -, found', passed, -⟩
      rw [found] at found'
      cases found'
      rw [refused] at passed
      cases passed
    · rename_i current passed
      rw [proceed_atomic_iff passed]
      constructor
      · rintro whole ⟨rule', index', current', new, text, found', passed', writes, written, other, late⟩
        rw [found] at found'
        cases found'
        rw [passed] at passed'
        cases passed'
        rcases whole new text writes written with same | ⟨there, recordable⟩
        · exact other same
        · exact late.elim (Nat.not_le_of_lt there) recordable
      · intro none new text writes written
        refine or_iff_not_imp_left.mpr fun other => ?_
        refine not_or.mp (fun late => none ?_) |>.imp_left Nat.lt_of_not_le
        exact ⟨rule, index, current, new, text, found, passed, writes, written, other, late⟩

/-- A word that is changed to another one was found, and the edit is not broken off. -/
theorem DeclarationEdit.atomic_iff_float :
    let edit : DeclarationEdit := .update (.keyword "left") (.keyword "right")
    let sheet : Sheet := .ofText ".a \x7b float: left; \x7d"
    (∃ rule index value, sheet.resolve ".a" none = .ok (rule, index) ∧ rule.style? "float" = some value ∧
      value.close (.keyword "left") Style.Value.defaultTolerance = .ok true) ∧
        ¬edit.BreaksLate sheet ".a" "float" none := by
  intro edit sheet
  have made : ((edit.apply sheet ".a" "float" none).result.toOption).isSome = true := by decide +kernel
  cases done : (edit.apply sheet ".a" "float" none).result with
  | error e =>
    rw [done] at made
    cases made
  | ok a =>
    obtain ⟨verified, atomic⟩ := DeclarationEdit.atomic_iff sheet ".a" "float" none edit
    exact ⟨verified (.keyword "left") a rfl done, atomic.mp (.inl ⟨a, done⟩)⟩

/-! ### A value that cannot be written -/

/-- A sheet with a channel that is too large for a color code. -/
private def glaringText : String := ".b \x7b color: color(srgb 1e308 0 0); \x7d"

private def dimmingEdit : DeclarationEdit := .update (.color ⟨.srgb, ⟨1e308, 0.0, 0.0⟩, 1.0⟩) (.keyword "red")

/-- A color that was replaced and cannot be written breaks the edit off when the sheet is changed. -/
theorem update_changes_and_fails : ∃ (sheet : Sheet) (edit : DeclarationEdit), sheet.hasError = false ∧
    (edit.apply sheet ".b" "color" none).result.toOption = none ∧
      (edit.apply sheet ".b" "color" none).sheet.toText = ".b \x7b color: red; \x7d" ∧
        ¬(edit.apply sheet ".b" "color" none).Atomic sheet := by
  have failed : ((dimmingEdit.apply (.ofText glaringText) ".b" "color" none).result.toOption.isSome) = false := by
    decide +kernel
  have text : (dimmingEdit.apply (.ofText glaringText) ".b" "color" none).sheet.toText = ".b \x7b color: red; \x7d" := by
    decide +kernel
  refine ⟨.ofText glaringText, dimmingEdit, by decide +kernel, by simpa using failed, text, ?_⟩
  rintro (⟨a, made⟩ | ⟨same, -⟩)
  · rw [made] at failed
    cases failed
  · rw [toText, same] at text
    revert text
    decide +kernel

end Retouch.Sheet
