import Retouch.Proofs.Project.Revert
import Retouch.Proofs.Project.Rewrite

/-!
# Transforms that are reverted at once

A change of styles is applied to a project, and then the request that its answer says reverts it. The second
request finds the sheet as the first one has left it, if the sheet is written as it stands; so what is known of
changes of sheets tells what becomes of the project.

## Main statements

* `Reverting.restores_iff`: the second request is answered with success, and the rule reads as before, just if
  the values of the change are read as they must be and no importance is lost.
-/
namespace Retouch

namespace Project

variable {project after : Project} {file selector : String} {path : Files.Path} {sheet : Sheet}
  {rule : Sheet.Rule} {index : Nat} {request : Request} {result : TransformResult}
  {previous : Option Style.Value}

/-! ### One transform -/

/-- The file of a name holds a sheet, and lies outside the folder of the program; and the cache is faithful. -/
structure Opens (project : Project) (file : String) (path : Files.Path) (sheet : Sheet) : Prop where
  faithful : Faithful project.cache
  opened : project.perform (openSheet file) = (.ok (path, ⟨sheet.source, sheet⟩), project)
  outside : Outside project (project.disk.aim path)

/-- The path can be written. -/
structure Usable (path : Files.Path) : Prop where
  plain : Plain path
  roomy : lacksRoom path draftRoom = false

theorem edit_eq_editSheet {edit : SheetEdit} (styled : request.change.sheetEdit? = some edit) :
    Project.edit request = editSheet request.target request.change.kind request.id edit := by
  unfold Project.edit
  cases change : request.change with
  | textUpdate prior new =>
    rw [change] at styled
    cases styled
  | _ =>
    rw [change] at styled
    cases styled
    rfl

/-- A change of styles is answered just if its edit is made. -/
theorem apply_eq_ok_iff : project.perform (apply request) = (.ok result, after) ↔
    ∃ edited, project.perform (Project.edit request) = (.ok edited, after) ∧
      result = ⟨true, request.id, some edited.affectedFiles, none, some (undoData request edited)⟩ := by
  unfold apply
  constructor
  · intro done
    obtain ⟨edited, middle, made, done⟩ := perform_bind_eq_ok project done
    cases done
    exact ⟨edited, made, rfl⟩
  · rintro ⟨edited, made, rfl⟩
    exact perform_bind_ok _ made

theorem undoData_eq {edit : SheetEdit} (styled : request.change.sheetEdit? = some edit) (edited : Edited) :
    undoData request edited = ⟨request.target, request.change.reverse edited.previous⟩ := by
  rw [← undoData_change]
  unfold undoData
  cases change : request.change with
  | textUpdate prior new =>
    rw [change] at styled
    cases styled
  | cssAdd property prior new => cases edited.previous <;> rfl
  | cssUpdate property prior new => rfl
  | cssRemove property prior => rfl

/-- What reverts a change of styles is one. -/
theorem styled_reverse {change : Change} {edit : SheetEdit} (styled : change.sheetEdit? = some edit)
    (previous : Option Style.Value) : ∃ edit', (change.reverse previous).sheetEdit? = some edit' := by
  cases change with
  | textUpdate prior new => cases styled
  | cssAdd property prior new => cases previous <;> exact ⟨_, rfl⟩
  | cssUpdate property prior new => exact ⟨_, rfl⟩
  | cssRemove property prior => exact ⟨_, rfl⟩

namespace Opens

theorem clean (opens : Opens project file path sheet) : Files.Path.back ∉ path.names := by
  obtain ⟨rfl, -⟩ := openSheet_eq_ok opens.opened
  exact Files.Path.not_mem_normal _

/-- A change of styles that is answered was made in the sheet. What it left is opened afterwards, if it was
written as it stands. -/
theorem made_of_apply {edit : SheetEdit} (request : Request)
    (opens : Opens project request.target.styleFile path sheet)
    (chosen : request.target.selectors.getLast? = some selector)
    (styled : request.change.sheetEdit? = some edit)
    (applied : project.perform (apply request) = (.ok result, after)) :
    ∃ changed previous, request.change.Made sheet selector changed previous ∧
      result.undoData = some ⟨request.target, request.change.reverse previous⟩ ∧ Usable path ∧
      Beside [] project after ∧
      (¬ChangesBreaks sheet.source changed.source → Opens after request.target.styleFile path changed) := by
  obtain ⟨edited, made, rfl⟩ := apply_eq_ok_iff.mp applied
  rw [edit_eq_editSheet styled] at made
  -- What the edit came to, about the sheet that was opened.
  obtain ⟨selector', path', kept, changed, previous, written, copied, middle, chosen', opened, done, sound,
    wrote⟩ := editSheet_eq_ok opens.faithful made
  rw [chosen] at chosen'
  cases chosen'
  rw [opens.opened] at opened
  cases opened
  -- The same edit again, for what it leaves.
  obtain ⟨edited', last, cache, made', same, faithful, lastCache, beside⟩ :=
    editSheet_run opens.faithful request.change.kind request.id chosen opens.opened done sound wrote
  rw [made] at made'
  cases made'
  -- After the write only the record is made, which spares the file.
  obtain ⟨holds, roomy, begun⟩ := write_eq_ok_holds opens.clean wrote
  have outside : Outside middle (middle.disk.aim path) := by
    have aim : middle.disk.aim path = project.disk.aim path := by
      rw [Files.Disk.aim, begun.spares.home]
      rfl
    unfold Outside
    rw [aim, begun.root]
    exact opens.outside
  have way := beside _ outside
  have root := begun.trans (beside [] (outside_root middle))
  refine ⟨changed, edited.previous, ⟨⟨edit, styled, ?_⟩, sound⟩, ?_, ⟨plain_of_write wrote, roomy⟩, root, ?_⟩
  · rw [done, same]
  · rw [undoData_eq styled]
  · intro unmixed
    have text : written = changed.source := (write_eq_ok wrote).2.trans (Classical.not_not.mp unmixed)
    subst text
    have read : Sheet.ofChars changed.source = changed := ((sheet_eq_ofChars_iff _ _).mpr rfl).symm
    refine ⟨?_, ?_, ?_⟩
    · rw [lastCache, faithful_keepSheet_iff faithful]
      exact read.symm
    · have again := openSheet_run opens.opened root.root (holds.beside opens.clean way)
      rwa [read] at again
    · have aim : after.disk.aim path = middle.disk.aim path := by
        rw [Files.Disk.aim, way.spares.home]
        rfl
      unfold Outside at outside ⊢
      rw [aim, way.root]
      exact outside

/-- A change that is made in the sheet is answered, if the file can be written. -/
theorem apply_of_made {changed : Sheet} (request : Request)
    (opens : Opens project request.target.styleFile path sheet)
    (chosen : request.target.selectors.getLast? = some selector)
    (made : request.change.Made sheet selector changed previous) (usable : Usable path)
    (encodable : Encodable project ((Text.LineBreak.ofText sheet.source).apply changed.source)) :
    ∃ result after, project.perform (apply request) = (.ok result, after) := by
  obtain ⟨⟨edit, styled, done⟩, sound⟩ := made
  obtain ⟨-, -, holds, -⟩ := openSheet_eq_ok opens.opened
  obtain ⟨copied, middle, wrote⟩ :=
    write_runs opens.clean usable.plain usable.roomy opens.outside holds encodable
  obtain ⟨edited, last, _, made', -⟩ :=
    editSheet_run opens.faithful request.change.kind request.id chosen opens.opened done sound wrote
  exact ⟨_, last, apply_eq_ok_iff.mpr ⟨edited, (edit_eq_editSheet styled) ▸ made', rfl⟩⟩

end Opens

/-! ### Two transforms -/

/-- A change of styles that was answered, the sheet that it was made in, and what is known of the two sheets
that come of it and of what reverts it: they are written as they stand, and are read as written. -/
structure Reverting where
  project : Project
  request : Request
  result : TransformResult
  undo : UndoData
  later : Project
  path : Files.Path
  sheet : Sheet
  selector : String
  rule : Sheet.Rule
  /-- The rule as it is found after the change. -/
  changed : Sheet.Rule
  index : Nat
  opens : Opens project request.target.styleFile path sheet
  chosen : request.target.selectors.getLast? = some selector
  styled : request.change.sheetEdit?.isSome
  applied : project.perform (apply request) = (.ok result, later)
  undoes : result.undoData = some undo
  found : sheet.resolve selector none = .ok (rule, index)
  reads : request.change.ReadAsWritten sheet rule index
  kept : ¬ChangesBreaks sheet.source (request.change.written sheet rule).source
  again : (request.change.written sheet rule).resolve selector none = .ok (changed, index)
  reads_back : undo.change.ReadAsWritten (request.change.written sheet rule) changed index
  kept_back : ¬ChangesBreaks (request.change.written sheet rule).source
    (undo.change.written (request.change.written sheet rule) changed).source
  encodable : Encodable project (undo.change.written (request.change.written sheet rule) changed).source

namespace Reverting

/-- The request that reverts the change is answered with success, and the rule reads as before. -/
def Restores (r : Reverting) (id : String) : Prop :=
  ∃ answer after sheet rule index,
    r.later.perform (apply ⟨id, r.undo.target, r.undo.change⟩) = (.ok answer, after) ∧ answer.success = true ∧
      after.perform (openSheet r.request.target.styleFile) = (.ok (r.path, ⟨sheet.source, sheet⟩), after) ∧
      sheet.resolve r.selector none = .ok (rule, index) ∧ Sheet.Restored r.rule rule

/-- The project is restored just if the sheet is. -/
theorem restores_iff_sheet (r : Reverting) (id : String) :
    ∃ previous, r.request.change.Made r.sheet r.selector (r.request.change.written r.sheet r.rule) previous ∧
      (r.request.change.reverse previous).ReadAsWritten (r.request.change.written r.sheet r.rule) r.changed
        r.index ∧
      (r.Restores id ↔ r.request.change.Restores previous (r.request.change.written r.sheet r.rule) r.selector
        r.rule) := by
  obtain ⟨edit, styled⟩ := Option.isSome_iff_exists.mp r.styled
  obtain ⟨after, previous, made, undone, usable, beside, left⟩ :=
    Opens.made_of_apply r.request r.opens r.chosen styled r.applied
  obtain ⟨-, rfl, -⟩ := (Change.made_iff r.found r.reads).mp made
  -- The second request finds the sheet that the first one left.
  have opens := left r.kept
  have undo : r.undo = ⟨r.request.target, r.request.change.reverse previous⟩ :=
    Option.some.inj (r.undoes.symm.trans undone)
  have reads_back := r.reads_back
  have kept_back := r.kept_back
  have encodable := r.encodable
  rw [undo] at reads_back kept_back encodable
  dsimp only at reads_back kept_back encodable
  let back : Request := ⟨id, r.request.target, r.request.change.reverse previous⟩
  obtain ⟨edit', styled'⟩ := styled_reverse styled previous
  refine ⟨previous, made, reads_back, ?_⟩
  unfold Restores
  rw [undo]
  constructor
  · rintro ⟨answer, last, sheet, rule, index, applied, -, opened, found, restored⟩
    obtain ⟨reverted, replaced, made', -, -, -, left'⟩ := Opens.made_of_apply back opens r.chosen styled' applied
    obtain ⟨-, rfl, -⟩ := (Change.made_iff r.again reads_back).mp made'
    -- The sheet that is read in the end is the one that the second change left.
    rw [(left' kept_back).opened] at opened
    simp only [Prod.mk.injEq, Except.ok.injEq, Cached.mk.injEq, true_and, and_true] at opened
    obtain ⟨-, rfl⟩ := opened
    exact ⟨_, replaced, rule, made', ⟨index, found⟩, restored⟩
  · rintro ⟨reverted, replaced, restored, made', ⟨index, found⟩, same⟩
    obtain ⟨-, rfl, -⟩ := (Change.made_iff r.again reads_back).mp made'
    have written := encodable.beside beside
    rw [← Classical.not_not.mp kept_back] at written
    obtain ⟨answer, last, applied⟩ := Opens.apply_of_made back opens r.chosen made' usable written
    obtain ⟨_, _, made'', -, -, -, left'⟩ := Opens.made_of_apply back opens r.chosen styled' applied
    obtain ⟨-, rfl, -⟩ := (Change.made_iff r.again reads_back).mp made''
    obtain ⟨_, -, success⟩ := apply_eq_ok_iff.mp applied
    refine ⟨answer, last, _, restored, index, applied, ?_, (left' kept_back).opened, found, same⟩
    rw [success]

/-- A change of styles is reverted by what its answer says just if the values of the change are read as they
must be and no importance is lost. -/
theorem restores_iff (r : Reverting) (id : String) :
    r.Restores id ↔ r.request.change.Revertible r.rule.outline.entries := by
  obtain ⟨previous, made, reads_back, restores⟩ := r.restores_iff_sheet id
  rw [restores]
  exact Change.reverted_iff r.found r.reads made r.again reads_back

/-- A change that is accepted by the rule is answered, and its answer says how to revert it. -/
theorem of_accepted {path : Files.Path} {changed : Sheet.Rule} (request : Request)
    (opens : Opens project request.target.styleFile path sheet)
    (chosen : request.target.selectors.getLast? = some selector)
    (styled : request.change.sheetEdit?.isSome)
    (found : sheet.resolve selector none = .ok (rule, index))
    (reads : request.change.ReadAsWritten sheet rule index)
    (accepted : request.change.Accepted rule.outline.entries) (usable : Usable path)
    (encodable : Encodable project (request.change.written sheet rule).source)
    (kept : ¬ChangesBreaks sheet.source (request.change.written sheet rule).source)
    (again : (request.change.written sheet rule).resolve selector none = .ok (changed, index))
    (reads_back : (request.change.reverse (request.change.replaced? rule.outline.entries)).ReadAsWritten
      (request.change.written sheet rule) changed index)
    (kept_back : ¬ChangesBreaks (request.change.written sheet rule).source
      ((request.change.reverse (request.change.replaced? rule.outline.entries)).written
        (request.change.written sheet rule) changed).source)
    (encodable_back : Encodable project
      ((request.change.reverse (request.change.replaced? rule.outline.entries)).written
        (request.change.written sheet rule) changed).source) :
    ∃ r : Reverting, r.request = request ∧ r.sheet = sheet ∧ r.rule = rule := by
  have made := (Change.made_iff found reads).mpr ⟨accepted, rfl, rfl⟩
  rw [← Classical.not_not.mp kept] at encodable
  obtain ⟨result, later, applied⟩ := opens.apply_of_made request chosen made usable encodable
  obtain ⟨edit, styled'⟩ := Option.isSome_iff_exists.mp styled
  obtain ⟨_, previous, made', undone, -⟩ := opens.made_of_apply request chosen styled' applied
  obtain ⟨-, -, rfl⟩ := (Change.made_iff found reads).mp made'
  exact ⟨⟨project, request, result, _, later, path, sheet, selector, rule, changed, index, opens, chosen, styled,
    applied, undone, found, reads, kept, again, reads_back, kept_back, encodable_back⟩, rfl, rfl, rfl⟩

end Reverting

/-! ### A rule with one declaration -/

/-- A project with one sheet. -/
def sheetProject (text : String) : Project where
  root := .ofText "/page"
  disk :=
    { nodes := [(["page"], .folder), (["page", "a.css"], .file ⟨Text.Utf8.encode text.toList, 0⟩)]
      writes := 1 }

def styleRequest (change : Change) : Request := ⟨"1", ⟨"a.tsx", 1, 1, "a.css", [".a"]⟩, change⟩

theorem opens_sheetProject (text : String)
    (read : ((sheetProject text).perform (readSource "a.css")).1.toOption =
      some (.ofText "/page/a.css", text.toList)) :
    Opens (sheetProject text) "a.css" (.ofText "/page/a.css") (.ofText text) := by
  refine ⟨faithful_empty, ?_, ?_⟩
  · unfold openSheet
    rw [if_neg (by decide), if_neg (by decide)]
    rcases outcome : (sheetProject text).perform (readSource "a.css") with ⟨e | ⟨path, found⟩, after⟩
    · rw [outcome] at read
      cases read
    · rw [outcome] at read
      cases read
      obtain ⟨-, rfl, -⟩ := readSource_eq_ok outcome
      rw [perform_bind_ok _ outcome]
      rfl
  · have aim : (sheetProject text).disk.aim (.ofText "/page/a.css") = ["page", "a.css"] := by
      unfold Files.Disk.aim
      rw [if_pos (by decide)]
      decide
    unfold Outside
    rw [aim]
    show ¬(toolFolder (.ofText "/page")).names <+: ["page", "a.css"]
    decide

def boldText : String := ".a \x7b font-weight: bold; \x7d"

def boldRule : Sheet.Rule := (Sheet.ofText boldText).rules.get ⟨0, by decide +kernel⟩

def normalText : String := ".a \x7b font-weight: normal; \x7d"

def normalRule : Sheet.Rule := (Sheet.ofText normalText).rules.get ⟨0, by decide +kernel⟩

def normalChange : Change := .cssUpdate "font-weight" (.keyword "bold") (.keyword "normal")

private theorem usable_sheet : Usable (.ofText "/page/a.css") :=
  ⟨by unfold Plain; decide, by decide +kernel⟩

private theorem encodable_sheetProject (text : String) (other : List Char) :
    Encodable (sheetProject text) other := by
  refine ⟨.utf8, _, ?_, rfl⟩
  show Files.Encoding.ofName? "utf-8" = some .utf8
  decide

private theorem declared_bold : Sheet.Entries.find? "font-weight" boldRule.outline.entries =
    some ⟨"font-weight".toList, "bold".toList, false⟩ := by decide +kernel

theorem reverting_bold : ∃ r : Reverting, r.request = styleRequest normalChange ∧
    r.sheet = .ofText boldText ∧ r.rule = boldRule := by
  have opens := opens_sheetProject boldText (by decide +kernel)
  have found : (Sheet.ofText boldText).resolve ".a" none = .ok (boldRule, 0) :=
    eq_ok_of_toOption (by decide +kernel)
  have again : (normalChange.written (.ofText boldText) boldRule).resolve ".a" none = .ok (normalRule, 0) :=
    eq_ok_of_toOption (by decide +kernel)
  have value : Sheet.Entries.value? "font-weight" boldRule.outline.entries = some (.keyword "bold") := by
    rw [Sheet.Entries.value?, declared_bold]
    rfl
  have reads : normalChange.ReadAsWritten (.ofText boldText) boldRule 0 :=
    ⟨by unfold Sheet.Lands; decide +kernel, by decide +kernel⟩
  refine Reverting.of_accepted (styleRequest normalChange) opens rfl rfl found reads
    ⟨⟨"normal", rfl⟩, _, ⟨value, rfl⟩, "bold", rfl⟩ usable_sheet (encodable_sheetProject _ _) ?_ again ?_ ?_
    (encodable_sheetProject _ _)
  · unfold ChangesBreaks
    decide +kernel
  · exact ⟨by unfold Sheet.Lands; decide +kernel, by decide +kernel⟩
  · unfold ChangesBreaks
    decide +kernel

/-- A weight that is changed is changed back. -/
theorem Reverting.restores_iff_bold : ∃ r : Reverting, r.request = styleRequest normalChange ∧ r.Restores "2" := by
  obtain ⟨r, request, -, rule⟩ := reverting_bold
  refine ⟨r, request, (restores_iff r "2").mpr ?_⟩
  rw [request, rule]
  refine ⟨⟨"normal", rfl, rfl⟩, ⟨"normal", rfl, "normal", rfl⟩, ?_⟩
  intro e declared
  rw [declared_bold] at declared
  cases declared
  exact ⟨"bold", rfl, .inl rfl⟩

def importantText : String := ".a \x7b font-weight: bold !important; \x7d"

def importantRule : Sheet.Rule := (Sheet.ofText importantText).rules.get ⟨0, by decide +kernel⟩

def removalChange : Change := .cssRemove "font-weight" (.keyword "bold")

/-- The sheet without the declaration. -/
def bareSheet : Sheet := removalChange.written (.ofText importantText) importantRule

def bareRule : Sheet.Rule := bareSheet.rules.get ⟨0, by decide +kernel⟩

private theorem declared_important : Sheet.Entries.find? "font-weight" importantRule.outline.entries =
    some ⟨"font-weight".toList, "bold".toList, true⟩ := by decide +kernel

private theorem reverting_important : ∃ r : Reverting, r.request = styleRequest removalChange ∧
    r.sheet = .ofText importantText ∧ r.rule = importantRule := by
  have opens := opens_sheetProject importantText (by decide +kernel)
  have found : (Sheet.ofText importantText).resolve ".a" none = .ok (importantRule, 0) :=
    eq_ok_of_toOption (by decide +kernel)
  have again : bareSheet.resolve ".a" none = .ok (bareRule, 0) := eq_ok_of_toOption (by decide +kernel)
  have value : Sheet.Entries.value? "font-weight" importantRule.outline.entries = some (.keyword "bold") := by
    rw [Sheet.Entries.value?, declared_important]
    rfl
  have reads : removalChange.ReadAsWritten (.ofText importantText) importantRule 0 :=
    ⟨by unfold Sheet.Lands; decide +kernel, by decide +kernel⟩
  refine Reverting.of_accepted (styleRequest removalChange) opens rfl rfl found reads ⟨_, value, rfl⟩
    usable_sheet (encodable_sheetProject _ _) ?_ again ?_ ?_ (encodable_sheetProject _ _)
  · unfold ChangesBreaks
    decide +kernel
  · exact ⟨by unfold Sheet.Lands; decide +kernel, by decide +kernel⟩
  · unfold ChangesBreaks
    decide +kernel

/-- A declaration that is removed comes back without its importance. -/
theorem importance_lost : ∃ r : Reverting, r.sheet.hasError = false ∧ ¬r.Restores "2" := by
  obtain ⟨r, request, sheet, rule⟩ := reverting_important
  refine ⟨r, ?_, fun restored => ?_⟩
  · rw [sheet]
    decide +kernel
  · obtain ⟨previous, made, reads_back, restores⟩ := r.restores_iff_sheet "2"
    have revertible := (Change.reverted_iff r.found r.reads made r.again reads_back).mp (restores.mp restored)
    rw [request, rule] at revertible
    have important := (revertible _ declared_important).2
    revert important
    decide +kernel

end Project

end Retouch
