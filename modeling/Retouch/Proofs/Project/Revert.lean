import Retouch.Proofs.Sheet.Restored
import Retouch.Project.Edit

/-!
# Reverting changes of styles

The answer to a change of styles says how to revert it. An update is reverted by the update the other way
round, an added declaration is removed, one that was overwritten is updated to its old value, and a removed
one is added again. What reverts a change expects the new value where it was written, so that value must be
read again as one that is close to it; it writes the old value, which must be read again as what the
declaration said; and it says nothing of importance, which a removed declaration takes along.

## Main statements

* `Change.made_iff`: when a change of a sheet is made, and what it leaves.
* `Change.reverted_iff`: a change that was made is reverted just if both values are read so and no importance
  is lost, where sheets are read as they are written.
-/
namespace Retouch

namespace Sheet

/-- Writes a value into a rule; one that cannot be written changes nothing. -/
def setValue (sheet : Sheet) (rule : Rule) (property : String) (value : Style.Value) : Sheet :=
  match value.text with
  | .ok text => sheet.set rule property text
  | .error _ => sheet

end Sheet

/-! ### Changes of styles -/

namespace Change

open Sheet

/-- What a change of styles does with a sheet and the selector of a rule in it. -/
def sheetEdit? : Change → Option Project.SheetEdit
  | .cssUpdate property prior new => some (Project.updating property prior new)
  | .cssAdd property prior new => some (Project.adding property prior new)
  | .cssRemove property prior => some (Project.removing property prior)
  | .textUpdate _ _ => none

/-- The change written into a rule of a sheet. -/
def written (sheet : Sheet) (rule : Sheet.Rule) : Change → Sheet
  | .cssUpdate property _ new => sheet.setValue rule property new
  | .cssAdd property _ new => sheet.setValue rule property new
  | .cssRemove property _ => (sheet.remove? rule property).getD sheet
  | .textUpdate _ _ => sheet

/-- The change made in a row of declarations. -/
def inRow (row : List Entry) : Change → List Entry
  | .cssUpdate property _ new => Entries.putValue property new row
  | .cssAdd property _ new => Entries.putValue property new row
  | .cssRemove property _ => Entries.drop property row
  | .textUpdate _ _ => row

/-- The value that a row has for the property that is changed. -/
def replaced? (row : List Entry) : Change → Option Style.Value
  | .cssUpdate property _ _ => Entries.value? property row
  | .cssAdd property _ _ => Entries.value? property row
  | .cssRemove property _ => Entries.value? property row
  | .textUpdate _ _ => none

/-- The row has a value for a property that is close to the one expected. -/
def Expects (row : List Entry) (property : String) (prior value : Style.Value) : Prop :=
  Entries.value? property row = some value ∧ value.close prior Style.Value.defaultTolerance = .ok true

/-- The change is made in a rule with this row of declarations: the row has what is expected, and what has to
be written, into the sheet or for the record, can be written. -/
def Accepted (row : List Entry) : Change → Prop
  | .cssUpdate property prior new =>
    Sheet.Writable new ∧ ∃ value, Expects row property prior value ∧ Sheet.Writable value
  | .cssAdd property prior new =>
    Sheet.Writable new ∧ ∀ expected, prior = some expected → ∃ value, Expects row property expected value
  | .cssRemove property prior => ∃ value, Expects row property prior value
  | .textUpdate _ _ => False

/-- The change that reverts a change, from the value that was there before. -/
def reverse (previous : Option Style.Value) : Change → Change
  | .cssUpdate property prior new => .cssUpdate property new prior
  | .cssAdd property _ new =>
    match previous with
    | none => .cssRemove property new
    | some value => .cssUpdate property new value
  | .cssRemove property prior => .cssAdd property none prior
  | .textUpdate prior new => .textUpdate new prior

/-- What reverting takes. What was written must be recognized, and an old value that is written must be read as
what was declared; and a declaration that is added again for one that was removed must be as important, which it
is like the next one of the property, or not at all. -/
def Revertible (row : List Entry) : Change → Prop
  | .cssUpdate property prior new =>
    new.Recognized property ∧ new.Repeatable property ∧
      ∀ e, Entries.find? property row = some e → prior.Restores property (e.value property)
  | .cssAdd property _ new =>
    new.Recognized property ∧ ∀ e, Entries.find? property row = some e →
      new.Repeatable property ∧ (e.value property).Restores property (e.value property)
  | .cssRemove property prior =>
    ∀ e, Entries.find? property row = some e → prior.Restores property (e.value property) ∧
      ((Entries.find? property (Entries.drop property row)).map Entry.important).getD false = e.important
  | .textUpdate _ _ => False

/-- A change that was made in a sheet, with the value that was there before. -/
structure Made (change : Change) (sheet : Sheet) (selector : String) (after : Sheet)
    (previous : Option Style.Value) : Prop where
  edited : ∃ edit, change.sheetEdit? = some edit ∧ edit sheet selector = ⟨after, .ok previous⟩
  sound : after.hasError = true → sheet.hasError = true

/-- The sheet that the change leaves is free of errors if it was before, and says what the change says. -/
structure ReadAsWritten (change : Change) (sheet : Sheet) (rule : Sheet.Rule) (index : Nat) : Prop where
  lands : sheet.Lands (change.written sheet rule) index change.inRow
  sound : (change.written sheet rule).hasError = true → sheet.hasError = true

/-! ### When a change is made -/

variable {sheet after : Sheet} {selector property : String} {rule : Rule} {index : Nat}
  {previous : Option Style.Value} {prior new value : Style.Value}

theorem style?_eq_value? (rule : Rule) (property : String) :
    rule.style? property = Entries.value? property rule.outline.entries := style?_eq rule property

theorem checkPrior_iff : checkPrior rule property prior = .ok value ↔
    Expects rule.outline.entries property prior value := by
  rw [checkPrior_eq_ok, style?_eq_value?]
  rfl

/-- A rule is still there when its sheet says what it did but for a change of declarations. -/
theorem isSome_rule {row : List Entry → List Entry} (lands : sheet.Lands after index row)
    (found : sheet.resolve selector none = .ok (rule, index)) : (after.rules[index]?).isSome := by
  obtain ⟨rule', -, there, -⟩ := lands.resolve found
  simp [there]

theorem setRecorded_iff {α : Type} {recorded : List Style.Value} {answer a : α}
    (found : sheet.resolve selector none = .ok (rule, index))
    (lands : sheet.Lands (sheet.setValue rule property new) index (Entries.putValue property new)) :
    sheet.setRecorded rule index property new recorded answer = ⟨after, .ok a⟩ ↔
      Writable new ∧ (∀ value ∈ recorded, Writable value) ∧ sheet.setValue rule property new = after ∧
        answer = a := by
  rw [setRecorded_eq_ok]
  -- That the rule is still there need not be said: the sheet is read as written.
  have there := isSome_rule lands found
  unfold setValue at there ⊢
  constructor
  · rintro ⟨text, written, rfl, -, others, rfl⟩
    refine ⟨⟨text, written⟩, others, ?_, rfl⟩
    rw [written]
  · rintro ⟨⟨text, written⟩, others, rfl, rfl⟩
    refine ⟨text, written, ?_, there, others, rfl⟩
    rw [written]

theorem someResult_eq_ok {outcome : Outcome Style.Value} : Project.someResult outcome = ⟨after, .ok previous⟩ ↔
    ∃ value, outcome = ⟨after, .ok value⟩ ∧ previous = some value := by
  obtain ⟨sheet, result⟩ := outcome
  cases result with
  | error e => simp [Project.someResult, Except.map]
  | ok value =>
    simp only [Project.someResult, Except.map, Outcome.mk.injEq, Except.ok.injEq]
    constructor
    · rintro ⟨rfl, rfl⟩
      exact ⟨value, ⟨rfl, rfl⟩, rfl⟩
    · rintro ⟨_, ⟨rfl, rfl⟩, rfl⟩
      exact ⟨rfl, rfl⟩

theorem updating_iff (found : sheet.resolve selector none = .ok (rule, index))
    (lands : sheet.Lands (sheet.setValue rule property new) index (Entries.putValue property new)) :
    Project.updating property prior new sheet selector = ⟨after, .ok previous⟩ ↔
      (Change.cssUpdate property prior new).Accepted rule.outline.entries ∧
        sheet.setValue rule property new = after ∧
          Entries.value? property rule.outline.entries = previous := by
  simp only [Project.updating, someResult_eq_ok, updateDeclaration, found]
  constructor
  · rintro ⟨value, made, rfl⟩
    split at made
    · -- The expected value is not there.
      cases made
    · rename_i current checked
      obtain ⟨writable, recorded, rfl, rfl⟩ := (setRecorded_iff found lands).mp made
      have expected := checkPrior_iff.mp checked
      exact ⟨⟨writable, _, expected, recorded _ List.mem_cons_self⟩, rfl, expected.1⟩
  · rintro ⟨⟨writable, value, expected, writable'⟩, rfl, rfl⟩
    rw [checkPrior_iff.mpr expected]
    refine ⟨value, (setRecorded_iff found lands).mpr ⟨writable, ?_, rfl, rfl⟩, expected.1⟩
    simp [writable, writable']

theorem adding_iff {prior : Option Style.Value} (found : sheet.resolve selector none = .ok (rule, index))
    (lands : sheet.Lands (sheet.setValue rule property new) index (Entries.putValue property new)) :
    Project.adding property prior new sheet selector = ⟨after, .ok previous⟩ ↔
      (Change.cssAdd property prior new).Accepted rule.outline.entries ∧
        sheet.setValue rule property new = after ∧
          Entries.value? property rule.outline.entries = previous := by
  simp only [Project.adding, addDeclaration, found]
  have recorded (writable : Writable new) : ∀ value ∈ [new], Writable value := by simpa using writable
  -- Without an expected value nothing is checked, and the property may be new.
  cases prior with
  | none =>
    dsimp only
    rw [setRecorded_iff found lands, style?_eq_value?]
    constructor
    · rintro ⟨writable, -, rfl, rfl⟩
      exact ⟨⟨writable, nofun⟩, rfl, rfl⟩
    · rintro ⟨⟨writable, -⟩, rfl, rfl⟩
      exact ⟨writable, recorded writable, rfl, rfl⟩
  | some prior =>
    dsimp only
    constructor
    · intro made
      cases checked : checkPrior rule property prior with
      | error e =>
        rw [checked] at made
        cases made
      | ok current =>
        rw [checked] at made
        obtain ⟨writable, -, rfl, rfl⟩ := (setRecorded_iff found lands).mp made
        have expected := checkPrior_iff.mp checked
        refine ⟨⟨writable, ?_⟩, rfl, expected.1⟩
        rintro _ ⟨⟩
        exact ⟨current, expected⟩
    · rintro ⟨⟨writable, declared⟩, rfl, rfl⟩
      obtain ⟨value, expected⟩ := declared prior rfl
      rw [checkPrior_iff.mpr expected]
      exact (setRecorded_iff found lands).mpr ⟨writable, recorded writable, rfl, expected.1.symm⟩

theorem removing_iff (found : sheet.resolve selector none = .ok (rule, index)) :
    Project.removing property prior sheet selector = ⟨after, .ok previous⟩ ↔
      (Change.cssRemove property prior).Accepted rule.outline.entries ∧
        (sheet.remove? rule property).getD sheet = after ∧
          Entries.value? property rule.outline.entries = previous := by
  simp only [Project.removing, someResult_eq_ok, deleteDeclaration, found]
  constructor
  · rintro ⟨value, made, rfl⟩
    split at made
    · cases made
    · rename_i current checked
      have expected := checkPrior_iff.mp checked
      simp only [Outcome.mk.injEq, Except.ok.injEq] at made
      obtain ⟨rfl, rfl⟩ := made
      exact ⟨⟨_, expected⟩, rfl, expected.1⟩
  · rintro ⟨⟨value, expected⟩, rfl, rfl⟩
    rw [checkPrior_iff.mpr expected]
    exact ⟨value, rfl, expected.1⟩

/-- A change that is read as written is made just if it is accepted; it leaves the sheet with the change
written into the rule, and tells the value that was there before. -/
theorem made_iff {change : Change} (found : sheet.resolve selector none = .ok (rule, index))
    (reads : change.ReadAsWritten sheet rule index) :
    change.Made sheet selector after previous ↔ change.Accepted rule.outline.entries ∧
      change.written sheet rule = after ∧ change.replaced? rule.outline.entries = previous := by
  have sound : change.written sheet rule = after → after.hasError = true → sheet.hasError = true := by
    rintro rfl
    exact reads.sound
  suffices edits : (∃ edit, change.sheetEdit? = some edit ∧ edit sheet selector = ⟨after, .ok previous⟩) ↔
      change.Accepted rule.outline.entries ∧ change.written sheet rule = after ∧
        change.replaced? rule.outline.entries = previous by
    constructor
    · exact fun made => edits.mp made.edited
    · exact fun all => ⟨edits.mpr all, sound all.2.1⟩
  cases change with
  | cssUpdate property prior new =>
    simp only [sheetEdit?, Option.some.injEq, exists_eq_left']
    exact updating_iff found reads.lands
  | cssAdd property prior new =>
    simp only [sheetEdit?, Option.some.injEq, exists_eq_left']
    exact adding_iff found reads.lands
  | cssRemove property prior =>
    simp only [sheetEdit?, Option.some.injEq, exists_eq_left']
    exact removing_iff found
  | textUpdate prior new => simp [sheetEdit?, Accepted]

/-! ### Back in the row -/

variable {row : List Entry} {e : Entry}

/-- Setting a property back to an old value. -/
theorem update_back {old : Style.Value} (writable : Writable new) (declared : Entries.find? property row = some e) :
    (Change.cssUpdate property new old).Accepted (Entries.putValue property new row) ∧
        Entries.Restored row ((Change.cssUpdate property new old).inRow (Entries.putValue property new row)) ↔
      new.Recognized property ∧ new.Repeatable property ∧ old.Restores property (e.value property) := by
  obtain ⟨text, written⟩ := writable
  rw [Entries.putValue_eq written]
  simp only [Accepted, Expects, inRow, Entries.value?_put, Style.Value.Recognized, Style.Value.Repeatable,
    Style.Value.Restores, written, Except.ok.injEq, Option.some.injEq, exists_eq_left', and_assoc]
  -- What the second update leaves, if its value can be written.
  have back {text' : String} (written' : old.text = .ok text') :
      Entries.Restored row (Entries.putValue property old (Entries.put property text row)) ↔
        (Style.Value.parse property text').Alike (e.value property) := by
    rw [Entries.putValue_eq written', Entries.restored_put text' fun other apart => find?_put_other text apart row,
      find?_put_self, declared]
    simp
  constructor
  · rintro ⟨⟨text', written'⟩, close, repeatable, restored⟩
    exact ⟨close, repeatable, text', written', (back written').mp restored⟩
  · rintro ⟨close, repeatable, text', written', alike⟩
    exact ⟨⟨text', written'⟩, close, repeatable, (back written').mpr alike⟩

/-- Removing a property that was new. -/
theorem remove_back (writable : Writable new) (undeclared : Entries.find? property row = none) :
    (Change.cssRemove property new).Accepted (Entries.putValue property new row) ∧
        Entries.Restored row ((Change.cssRemove property new).inRow (Entries.putValue property new row)) ↔
      new.Recognized property := by
  obtain ⟨text, written⟩ := writable
  have restored : Entries.Restored row (Entries.drop property (Entries.put property text row)) := by
    rw [drop_put_new text undeclared]
    refine (@restored_of_others property row row fun _ _ => rfl).mpr ?_
    rw [undeclared]
    exact .none
  rw [Entries.putValue_eq written]
  simp only [Accepted, Expects, inRow, Entries.value?_put, Style.Value.Recognized, written, Except.ok.injEq,
    Option.some.injEq, exists_eq_left', and_iff_left restored]

/-- Adding a property again that was removed. -/
theorem add_back {old : Style.Value} (declared : Entries.find? property row = some e) :
    (Change.cssAdd property none old).Accepted (Entries.drop property row) ∧
        Entries.Restored row ((Change.cssAdd property none old).inRow (Entries.drop property row)) ↔
      old.Restores property (e.value property) ∧
        ((Entries.find? property (Entries.drop property row)).map Entry.important).getD false = e.important := by
  have back {text : String} (written : old.text = .ok text) :
      Entries.Restored row (Entries.putValue property old (Entries.drop property row)) ↔
        (Style.Value.parse property text).Alike (e.value property) ∧
          ((Entries.find? property (Entries.drop property row)).map Entry.important).getD false =
            e.important := by
    rw [Entries.putValue_eq written, Entries.restored_put text fun other apart => find?_drop_other apart row,
      declared]
    simp
  simp only [Accepted, inRow, Style.Value.Restores]
  constructor
  · rintro ⟨⟨⟨text, written⟩, -⟩, restored⟩
    obtain ⟨alike, important⟩ := (back written).mp restored
    exact ⟨⟨text, written, alike⟩, important⟩
  · rintro ⟨⟨text, written, alike⟩, important⟩
    exact ⟨⟨⟨text, written⟩, nofun⟩, (back written).mpr ⟨alike, important⟩⟩

/-- Whether what reverts a change is made, and restores the row, can be told from the values. -/
theorem revertible_iff {change : Change} (accepted : change.Accepted row) :
    (change.reverse (change.replaced? row)).Accepted (change.inRow row) ∧
        Entries.Restored row ((change.reverse (change.replaced? row)).inRow (change.inRow row)) ↔
      change.Revertible row := by
  -- By the kind of the change, which decides what reverts it; an addition has two ways back.
  cases change with
  | cssUpdate property prior new =>
    obtain ⟨writable, value, ⟨declared, -⟩, -⟩ := accepted
    obtain ⟨e, declared, -⟩ := Option.map_eq_some_iff.mp declared
    simp only [reverse, inRow, Revertible, declared, Option.some.injEq, forall_eq']
    exact update_back writable declared
  | cssAdd property prior new =>
    obtain ⟨writable, -⟩ := accepted
    cases declared : Entries.find? property row with
    | some e =>
      have previous : Entries.value? property row = some (e.value property) := by
        rw [Entries.value?, declared]
        rfl
      simp only [reverse, replaced?, previous, inRow, Revertible, declared, Option.some.injEq, forall_eq']
      exact update_back writable declared
    | none =>
      have previous : Entries.value? property row = none := by
        rw [Entries.value?, declared]
        rfl
      simp only [reverse, replaced?, previous, inRow, Revertible, declared, reduceCtorEq, false_implies,
        implies_true, and_true]
      exact remove_back writable declared
  | cssRemove property prior =>
    obtain ⟨value, declared, -⟩ := accepted
    obtain ⟨e, declared, -⟩ := Option.map_eq_some_iff.mp declared
    simp only [reverse, inRow, Revertible, declared, Option.some.injEq, forall_eq']
    exact add_back declared
  | textUpdate prior new => exact absurd accepted id

end Change

/-! ### Back in the sheet -/

/-- What reverts a change is made, and the rule says what it said before. -/
def Change.Restores (change : Change) (previous : Option Style.Value) (after : Sheet) (selector : String)
    (rule : Sheet.Rule) : Prop :=
  ∃ reverted replaced restored, (change.reverse previous).Made after selector reverted replaced ∧
    (∃ index, reverted.resolve selector none = .ok (restored, index)) ∧ Sheet.Restored rule restored

/-- A change that was made is reverted just if its values are read as they must be and no importance is lost. -/
theorem Change.reverted_iff {change : Change} {sheet after : Sheet} {selector : String}
    {rule changed : Sheet.Rule} {index : Nat} {previous : Option Style.Value}
    (found : sheet.resolve selector none = .ok (rule, index)) (reads : change.ReadAsWritten sheet rule index)
    (made : change.Made sheet selector after previous)
    (again : after.resolve selector none = .ok (changed, index))
    (reads_back : (change.reverse previous).ReadAsWritten after changed index) :
    change.Restores previous after selector rule ↔ change.Revertible rule.outline.entries := by
  obtain ⟨accepted, rfl, replaced⟩ := (made_iff found reads).mp made
  -- From the sheet to its rows and back: there the question is settled.
  have row : changed.outline.entries = change.inRow rule.outline.entries := by
    obtain ⟨changed', found', -, row⟩ := reads.lands.resolve found
    rw [again] at found'
    cases found'
    exact row
  obtain ⟨restored, found', -, row'⟩ := reads_back.lands.resolve again
  rw [← revertible_iff accepted, replaced, ← row, ← row', ← Sheet.restored_iff]
  constructor
  · rintro ⟨reverted, _, rule', made', ⟨index', there⟩, same⟩
    obtain ⟨accepted', rfl, -⟩ := (made_iff again reads_back).mp made'
    rw [found'] at there
    cases there
    exact ⟨accepted', same⟩
  · rintro ⟨accepted', same⟩
    exact ⟨_, _, restored, (made_iff again reads_back).mpr ⟨accepted', rfl, rfl⟩, ⟨index, found'⟩, same⟩

theorem Project.undoData_change (request : Request) (edited : Project.Edited) :
    (Project.undoData request edited).change = request.change.reverse edited.previous := by
  unfold undoData Change.reverse
  cases request.change with
  | cssAdd property prior new => cases edited.previous <;> rfl
  | cssUpdate property prior new => rfl
  | cssRemove property prior => rfl
  | textUpdate prior new => rfl

end Retouch
