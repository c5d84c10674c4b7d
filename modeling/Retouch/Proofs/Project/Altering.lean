import Retouch.Proofs.Project.Local
import Retouch.Proofs.Project.Reverting
import Retouch.Proofs.Sheet.Inside

/-!
# Edits that alter one declaration

An edit of styles writes the name of a property and the text of a value between the braces of a rule as they are.
Whether the sheet then says the same but for this property depends on what the parser makes of them: they can hold
a semicolon, a brace or the mark of a comment.

## Main statements

* `Opens.confined_iff`: when an edit that is answered has altered nothing but the declaration that it names.
* `readsAlike_of_declaration`: it has altered no more, if one declaration is read where the old one stood.
* `value_adds_declaration`: a value with a semicolon alters more.
-/
namespace Retouch

/-! ### Rows of which one declaration is altered -/

namespace Sheet.Entries

/-- The first declaration of a property is replaced by some other one of it, or one is added at the end. -/
inductive Sets (property : String) : List Entry → List Entry → Prop where
  | replaced {front behind : List Entry} {e other : Entry} (first : find? property front = none)
      (named : e.isOf property = true) (same : other.isOf property = true) :
      Sets property (front ++ e :: behind) (front ++ other :: behind)
  | added {row : List Entry} {e : Entry} (missing : find? property row = none) (named : e.isOf property = true) :
      Sets property row (row ++ [e])

variable {property : String} {row row' : List Entry} {e : Entry}

theorem Sets.cons (other : e.isOf property = false) (sets : Sets property row row') :
    Sets property (e :: row) (e :: row') := by
  have missing {front : List Entry} (absent : find? property front = none) : find? property (e :: front) = none := by
    unfold find? at absent ⊢
    rw [List.find?_cons, other]
    exact absent
  cases sets with
  | @replaced front behind _ _ first named same =>
    exact @Sets.replaced property (e :: front) behind _ _ (missing first) named same
  | added absent named => exact .added (missing absent) named

theorem sets_put (property text : String) (row : List Entry) : Sets property row (put property text row) := by
  induction row with
  | nil => exact .added rfl (by simp [Entry.isOf, sameProperty])
  | cons e rest ih =>
    unfold put
    split
    · rename_i named
      exact @Sets.replaced property [] rest _ _ rfl named named
    · rename_i other
      exact ih.cons (Bool.eq_false_iff.mpr other)

/-- Where the property is declared, there are as many declarations afterwards. -/
theorem Sets.length (sets : Sets property row row') (declared : find? property row ≠ none) :
    row'.length = row.length := by
  cases sets with
  | replaced => simp
  | added missing => exact absurd missing declared

end Sheet.Entries

namespace Sheet

variable {sheet after : Sheet} {rule : Rule} {index : Nat} {property : String} {cs cs' rest : List Char}
  {items more : List Item} {d d' : DeclarationItem}

theorem rowOf_declaration (items more : List Item) (d : DeclarationItem) :
    rowOf (items ++ [.declaration d] ++ more) =
      rowOf items ++ ⟨d.name, Text.trim d.value, d.isImportant⟩ :: rowOf more := by
  simp [rowOf, Item.entry?]

/-- A declaration in the place of another one of its property is all that is read otherwise, if the text is read as
before up to it, and it ends where the other one did. -/
theorem readsAlike_of_declaration (front : UpTo (sheet.source.drop rule.innerStart) (after.source.drop rule.innerStart)
      index .sheet (withoutMark sheet.source) (withoutMark after.source))
    (early : Reads .block (sheet.source.drop rule.innerStart) items cs)
    (early' : Reads .block (after.source.drop rule.innerStart) items cs')
    (one : Reads .block cs [.declaration d] rest) (one' : Reads .block cs' [.declaration d'] rest)
    (late : Reads .block rest more (sheet.source.drop rule.closing))
    (first : Entries.find? property (rowOf items) = none) (named : sameProperty d.name property.toList = true)
    (named' : sameProperty d'.name property.toList = true) :
    ReadsAlike sheet after rule index (Entries.Sets property) := by
  -- Both insides are read in three parts, of which only the middle one differs.
  refine ⟨front, _, _, (early.append one).append late, (early'.append one').append late, ?_, ?_⟩
  · rw [rowOf_declaration, rowOf_declaration]
    exact .replaced first named named'
  · simp [othersOf, Item.isOther]

end Sheet

namespace Change

open Sheet

variable {sheet after : Sheet} {selector : String} {change : Change} {previous : Option Style.Value}

/-- What a change may do to the row of its rule: it sets its property, in whichever way, or takes out the first
declaration of it. -/
def Touches : Change → List Entry → List Entry → Prop
  | .cssUpdate property _ _, row, row' => Entries.Sets property row row'
  | .cssAdd property _ _, row, row' => Entries.Sets property row row'
  | .cssRemove property _, row, row' => row' = Entries.drop property row
  | .textUpdate _ _, row, row' => row' = row

/-- What an accepted change is to make of a row is something that it may do. -/
theorem touches_inRow {row : List Entry} (accepted : change.Accepted row) : change.Touches row (change.inRow row) := by
  have set {property : String} {new : Style.Value} (writable : Writable new) :
      Entries.Sets property row (Entries.putValue property new row) := by
    obtain ⟨text, written⟩ := writable
    rw [Entries.putValue_eq written]
    exact Entries.sets_put property text row
  cases change with
  | textUpdate prior new => rfl
  | cssUpdate property prior new => exact set accepted.1
  | cssAdd property prior new => exact set accepted.1
  | cssRemove property prior => rfl

/-- A change that is made is written into the rule that is found. -/
theorem written_of_made (made : change.Made sheet selector after previous) : ∃ rule index,
    sheet.resolve selector none = .ok (rule, index) ∧ after = change.written sheet rule ∧
      (rule.Embraced sheet.source → Spliced sheet rule after) := by
  obtain ⟨edit, styled, done⟩ := made.edited
  obtain ⟨rule, index, found, spliced⟩ :=
    Project.replaces_of_styled styled sheet selector previous (congrArg Outcome.result done)
  rw [done] at spliced
  refine ⟨rule, index, found, ?_, spliced⟩
  -- What is written when a property is set.
  have set {α : Type} {property : String} {new : Style.Value} {recorded : List Style.Value} {answer a : α}
      (done : sheet.setRecorded rule index property new recorded answer = ⟨after, .ok a⟩) :
      after = sheet.setValue rule property new := by
    obtain ⟨text, written, rfl, -⟩ := setRecorded_eq_ok.mp done
    rw [setValue, written]
  cases change with
  | textUpdate prior new => cases styled
  | cssUpdate property prior new =>
    cases styled
    obtain ⟨value, done, -⟩ := someResult_eq_ok.mp done
    simp only [updateDeclaration, found] at done
    split at done
    · cases done
    · exact set done
  | cssAdd property prior new =>
    cases styled
    simp only [Project.adding, addDeclaration, found] at done
    split at done
    · cases done
    · exact set done
  | cssRemove property prior =>
    cases styled
    obtain ⟨value, done, -⟩ := someResult_eq_ok.mp done
    simp only [deleteDeclaration, found] at done
    split at done
    · cases done
    · exact (congrArg Outcome.sheet done).symm

end Change

namespace Project

open Sheet (Alters ReadsAlike Lands)

variable {project after : Project} {path : Files.Path} {sheet : Sheet} {selector : String} {request : Request}
  {result : TransformResult}

/-- An edit of styles that is answered changes the text between the braces of its rule. Nothing else of the sheet is
read otherwise than the declaration that the edit names, just if the text is read as before up to the rule, and the
inside of the rule up to the same brace, but for this declaration. -/
theorem Opens.confined_iff {edit : SheetEdit} (opens : Opens project request.target.styleFile path sheet)
    (chosen : request.target.selectors.getLast? = some selector)
    (styled : request.change.sheetEdit? = some edit) (sound : sheet.hasError = false)
    (applied : project.perform (apply request) = (.ok result, after)) :
    ∃ rule index written inside, sheet.resolve selector none = .ok (rule, index) ∧
      written = request.change.written sheet rule ∧
      written.source = sheet.source.take rule.innerStart ++ inside ++ sheet.source.drop rule.closing ∧
      written.hasError = false ∧
      (¬ChangesBreaks sheet.source written.source → Opens after request.target.styleFile path written) ∧
      (Alters sheet written index request.change.Touches ↔
        ReadsAlike sheet written rule index request.change.Touches) ∧
      (Alters sheet written index request.change.Touches →
        ∃ row, request.change.Touches rule.outline.entries row ∧ Lands sheet written index fun _ => row) := by
  obtain ⟨written, previous, made, -, -, -, left⟩ := opens.made_of_apply request chosen styled applied
  obtain ⟨rule, index, found, same, spliced⟩ := Change.written_of_made made
  have there := Sheet.resolve_eq_ok found
  have member := List.mem_of_getElem? there
  have spliced := spliced (Sheet.embraced_of_sound sound member)
  obtain ⟨inside, text⟩ := spliced.between_braces sound member
  -- An edit that would bring an error into the sheet is refused.
  have guarded : written.hasError = false := by
    cases error : written.hasError with
    | false => rfl
    | true => exact (made.sound error).symm.trans sound
  exact ⟨rule, index, written, inside, found, same, text, guarded, left, Sheet.alters_iff sound there spliced,
    fun alters => alters.lands there⟩

/-! ### A rule with one declaration -/

private theorem readPlain_of_declaration {cs rest : List Char} {d : Sheet.DeclarationItem} (bare : cs.head? ≠ some '@')
    (found : Sheet.readDeclaration true cs = some (d, rest)) :
    Sheet.readPlain .block cs = some (.declaration d, rest) := by
  simp [Sheet.readPlain, bare, found]

private theorem heads_bold : Sheet.Heads .sheet boldText.toList .rule ".a".toList [' ']
    " font-weight: bold; \x7d".toList :=
  ⟨⟨by decide +kernel, by decide, by decide⟩, Option.isNone_iff_eq_none.mp (by decide +kernel), by decide +kernel⟩

private theorem heads_normal : Sheet.Heads .sheet normalText.toList .rule ".a".toList [' ']
    " font-weight: normal; \x7d".toList :=
  ⟨⟨by decide +kernel, by decide, by decide⟩, Option.isNone_iff_eq_none.mp (by decide +kernel), by decide +kernel⟩

private theorem readsAlike_bold : ReadsAlike (.ofText boldText) (normalChange.written (.ofText boldText) boldRule)
    boldRule 0 normalChange.Touches := by
  have source : (Sheet.ofText boldText).source = boldText.toList := rfl
  have source' : (normalChange.written (.ofText boldText) boldRule).source = normalText.toList := by decide +kernel
  have inner : boldText.toList.drop boldRule.innerStart = " font-weight: bold; \x7d".toList := by decide +kernel
  have inner' : normalText.toList.drop boldRule.innerStart = " font-weight: normal; \x7d".toList := by decide +kernel
  have closes : boldText.toList.drop boldRule.closing = ['\x7d'] := by decide +kernel
  have bare : Sheet.withoutMark boldText.toList = boldText.toList := by decide +kernel
  have bare' : Sheet.withoutMark normalText.toList = normalText.toList := by decide +kernel
  -- A blank, the declaration, and the blank before the brace.
  have blank {cs rest : List Char} (cutting : Sheet.cut cs (Sheet.dropGap .outside cs) = ([' '], rest)) :
      Sheet.Reads .block cs [.gap [' ']] rest := .gap cutting .nil
  have weight {cs : List Char} {d : Sheet.DeclarationItem} (here : Sheet.AtItem cs) (bare : cs.head? ≠ some '@')
      (found : Sheet.readDeclaration true cs = some (d, " \x7d".toList)) :
      Sheet.Reads .block cs [.declaration d] " \x7d".toList := .plain here (readPlain_of_declaration bare found) .nil
  refine @Sheet.readsAlike_of_declaration _ _ _ _ "font-weight" "font-weight: bold; \x7d".toList
    "font-weight: normal; \x7d".toList " \x7d".toList [.gap [' ']] [.gap [' ']]
    ⟨"font-weight".toList, [], " bold".toList, [], true⟩ ⟨"font-weight".toList, [], " normal".toList, [], true⟩
    ?_ ?_ ?_ ?_ ?_ ?_ rfl (by decide) (by decide)
  · rw [source, source', inner, inner', bare, bare']
    exact .rule heads_bold heads_normal
  · rw [source, inner]
    exact blank (by decide +kernel)
  · rw [source', inner']
    exact blank (by decide +kernel)
  · exact weight ⟨by decide +kernel, by decide, by decide⟩ (by decide) (by decide +kernel)
  · exact weight ⟨by decide +kernel, by decide, by decide⟩ (by decide) (by decide +kernel)
  · rw [source, closes]
    exact blank (by decide +kernel)

/-- A weight that is changed is changed alone. -/
theorem confined_iff_bold : ∃ result after row,
    (sheetProject boldText).perform (apply (styleRequest normalChange)) = (.ok result, after) ∧
      normalChange.Touches boldRule.outline.entries row ∧
      Lands (.ofText boldText) (normalChange.written (.ofText boldText) boldRule) 0 fun _ => row := by
  have answered : ((sheetProject boldText).perform (apply (styleRequest normalChange))).1.toOption.isSome = true := by
    decide +kernel
  rcases applied : (sheetProject boldText).perform (apply (styleRequest normalChange)) with ⟨e | result, after⟩
  · rw [applied] at answered
    cases answered
  · have chosen : (styleRequest normalChange).target.selectors.getLast? = some ".a" := rfl
    obtain ⟨rule, index, written, inside, found, rfl, -, -, -, confined, told⟩ :=
      (opens_sheetProject boldText (by decide +kernel)).confined_iff chosen rfl (by decide +kernel) applied
    have place : (Sheet.ofText boldText).resolve ".a" none = .ok (boldRule, 0) := eq_ok_of_toOption (by decide +kernel)
    rw [place] at found
    obtain ⟨rfl, rfl⟩ := Prod.mk.inj (Except.ok.inj found)
    obtain ⟨row, touches, lands⟩ := told (confined.mpr readsAlike_bold)
    exact ⟨result, after, row, rfl, touches, lands⟩

/-- A change of a value to a text that goes on with another declaration. -/
def runawayChange : Change := .cssUpdate "font-weight" (.keyword "bold") (.unparsed "normal; top: 0")

/-- A value with a semicolon is written, and a declaration that the edit does not name comes with it. -/
theorem value_adds_declaration : ∃ result after written,
    (sheetProject boldText).perform (apply (styleRequest runawayChange)) = (.ok result, after) ∧
      Opens after "a.css" (.ofText "/page/a.css") written ∧
      ¬∃ row, runawayChange.Touches boldRule.outline.entries row ∧ Lands (.ofText boldText) written 0 fun _ => row := by
  have answered : ((sheetProject boldText).perform (apply (styleRequest runawayChange))).1.toOption.isSome = true := by
    decide +kernel
  rcases applied : (sheetProject boldText).perform (apply (styleRequest runawayChange)) with ⟨e | result, after⟩
  · rw [applied] at answered
    cases answered
  · have chosen : (styleRequest runawayChange).target.selectors.getLast? = some ".a" := rfl
    have opens := opens_sheetProject boldText (by decide +kernel)
    obtain ⟨written, previous, made, -, -, -, left⟩ :=
      opens.made_of_apply (styleRequest runawayChange) chosen rfl applied
    obtain ⟨rule, index, found, rfl, -⟩ := Change.written_of_made made
    have place : (Sheet.ofText boldText).resolve ".a" none = .ok (boldRule, 0) := eq_ok_of_toOption (by decide +kernel)
    rw [place] at found
    obtain ⟨rfl, rfl⟩ := Prod.mk.inj (Except.ok.inj found)
    refine ⟨result, after, _, rfl, left ?_, ?_⟩
    · unfold ChangesBreaks
      decide +kernel
    · rintro ⟨row, touches, lands⟩
      -- Before there was one declaration, now there are two.
      have before : (Sheet.ofText boldText).outline =
          [⟨".a".toList, [⟨"font-weight".toList, "bold".toList, false⟩], none⟩] := by decide +kernel
      have now : (runawayChange.written (.ofText boldText) boldRule).outline =
          [⟨".a".toList, [⟨"font-weight".toList, "normal".toList, false⟩, ⟨"top".toList, ['0'], false⟩], none⟩] := by
        decide +kernel
      rw [Lands, before] at lands
      have same := now.symm.trans lands
      rw [List.modify_zero_cons] at same
      have two : [⟨"font-weight".toList, "normal".toList, false⟩, ⟨"top".toList, ['0'], false⟩] = row :=
        (Sheet.Outline.mk.inj (List.cons.inj same).1).2.1
      have declared : Sheet.Entries.find? "font-weight" boldRule.outline.entries ≠ none :=
        Option.isSome_iff_ne_none.mp (by decide +kernel)
      have one : boldRule.outline.entries.length = 1 := by decide +kernel
      have length := Sheet.Entries.Sets.length touches declared
      rw [one, ← two] at length
      cases length

end Project

end Retouch
