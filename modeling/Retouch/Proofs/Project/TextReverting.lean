import Retouch.Proofs.Markup.Opposite
import Retouch.Proofs.Project.Committed
import Retouch.Proofs.Project.Reverting
import Retouch.Proofs.Project.Undo

/-!
# Texts that are reverted

The answer to an edit of a text tells the opposite edit. It is made just if the element shows the new text, or
this one is blank, and if its file can be written; and the text that is shown then is the one that was shown
before, if the opposite edit meets the run that the first one has made.

What is assumed: with its new text the element is read as the grammar says, both times, and the file keeps its line
breaks.

## Main statements

* `OpensText.made_of_apply` and `OpensText.apply_of_made`: when an edit of a text is answered, and what it leaves.
* `TextReverting.text_restores_iff`: when the opposite edit brings back the text that was shown.
-/
namespace Retouch.Project

variable {project before after : Project} {file : String} {path : Files.Path} {text : List Char} {d : Markup.Document}
  {e : Markup.Element} {request : Request} {result : TransformResult} {prior new : String} {updated : List Char}

/-! ### One transform -/

/-- The file of a name holds a document, and lies outside the folder of the program; and the cache is faithful. -/
structure OpensText (project : Project) (file : String) (path : Files.Path) (d : Markup.Document) : Prop where
  faithful : Faithful project.cache
  opened : project.perform (openDocument file) = (.ok (path, ⟨d.source, d⟩), project)
  outside : Outside project (project.disk.aim path)

/-- What opening a document comes to. -/
theorem openDocument_holds {kept : Cached Markup.Document}
    (done : project.perform (openDocument file) = (.ok (path, kept), after)) :
    path = project.resolve file ∧ Holds project path kept.text := by
  unfold openDocument at done
  split at done
  · cases done
  · obtain ⟨⟨path', text⟩, middle, read, done⟩ := perform_bind_eq_ok project done
    obtain ⟨rfl, rfl, holds⟩ := readSource_eq_ok read
    cases done
    exact ⟨rfl, holds⟩

/-- A document that was opened is opened again, as the text that its file holds by then. -/
theorem openDocument_run {kept : Cached Markup.Document}
    (done : project.perform (openDocument file) = (.ok (path, kept), before)) (root : after.root = project.root)
    (holds : Holds after path text) :
    after.perform (openDocument file) = (.ok (path, ⟨text, .ofChars kept.parsed.language text⟩), after) := by
  unfold openDocument at done ⊢
  split at done
  · cases done
  · rename_i language known
    obtain ⟨⟨path', text'⟩, middle, read, done⟩ := perform_bind_eq_ok project done
    cases done
    rw [perform_bind_ok _ (readSource_run read root holds)]
    rfl

/-- What an edit leaves, if its file lies outside the folder of the program. -/
theorem Ends.left {known content : List Char} {r : Record} {edited : Edited}
    (ends : Ends project path known content r edited after) (clean : Files.Path.back ∉ path.names)
    (outside : Outside project (project.disk.aim path)) :
    Beside [] project after ∧ Holds after path edited.content ∧ Outside after (after.disk.aim path) := by
  obtain ⟨-, -, copied, middle, last, cache, wrote, noted, rfl⟩ := ends
  obtain ⟨holds, -, begun⟩ := write_eq_ok_holds clean wrote
  have way (place : Files.Place) (aside : Outside middle place) : Beside place middle last := by
    rcases noted with ⟨-, -, rfl⟩ | done
    · exact .refl place last
    · obtain ⟨_, _, recorded, beside⟩ := record_beside r middle
      rw [done] at recorded
      cases recorded
      exact beside place aside
  have aim : middle.disk.aim path = project.disk.aim path := by
    rw [Files.Disk.aim, begun.spares.home]
    rfl
  have aside : Outside middle (middle.disk.aim path) := by
    unfold Outside
    rw [aim, begun.root]
    exact outside
  have kept := holds.beside clean (way _ aside)
  have root := begun.trans (way [] (outside_root middle))
  refine ⟨⟨root.root, root.settings, root.spares⟩, kept, ?_⟩
  have aim' : last.disk.aim path = middle.disk.aim path := by
    rw [Files.Disk.aim, (way _ aside).spares.home]
    rfl
  unfold Outside at aside ⊢
  dsimp only
  rw [aim', (way [] (outside_root middle)).root]
  exact aside

namespace OpensText

theorem clean (opens : OpensText project file path d) : Files.Path.back ∉ path.names := by
  obtain ⟨rfl, -⟩ := openDocument_holds opens.opened
  exact Files.Path.not_mem_normal _

/-- From the faithful cache the document is loaded as it was opened. -/
theorem loaded (opens : OpensText project file path d) : ∃ cache, Faithful cache ∧
    project.perform (loadDocument file) = (.ok (path, ⟨d.source, d⟩), { project with cache }) := by
  obtain ⟨cache, result, last, faithful, opened, load⟩ := loadDocument_faithful opens.faithful file
  rw [opens.opened] at opened
  cases opened
  exact ⟨cache, faithful, load⟩

/-- What is read of a text is what the element at the place shows. -/
theorem readText (opens : OpensText project file path d) (found : d.elementAt? e.start = some e) :
    (project.perform (readText file (Text.positionAt d.source e.start).line
      (Text.positionAt d.source e.start).column)).1 = .ok e.textContent := by
  obtain ⟨cache, -, load⟩ := opens.loaded
  have within : e.start ≤ d.source.length := by
    obtain ⟨before, behind, spans⟩ := d.elementAt?_spans found
    rw [spans.begins, spans.whole]
    simp
  have there : project.perform (find file (Text.positionAt d.source e.start).line
      (Text.positionAt d.source e.start).column) = (.ok (some e), { project with cache }) := by
    unfold find
    rw [perform_bind_ok _ load]
    dsimp only
    rw [d.find_positionAt within, found]
    rfl
  unfold Project.readText
  rw [perform_bind_ok _ there]
  rfl

/-- An edit of a text that is answered was made in the document. What it left is opened afterwards, if it was
written as it stands. -/
theorem made_of_apply (opens : OpensText project request.target.file path d)
    (change : request.change = .textUpdate prior new)
    (applied : project.perform (apply request) = (.ok result, after)) :
    ∃ updated, d.updateText d.source request.target.line request.target.column prior new = .ok updated ∧
      ((Markup.Document.ofChars d.language updated).hasError = true → d.hasError = true) ∧
      result.undoData = some ⟨withoutStyle request.target, .textUpdate new prior⟩ ∧ result.success = true ∧
      Usable path ∧ Beside [] project after ∧ Encodable project ((Text.LineBreak.ofText d.source).apply updated) ∧
      (¬ChangesBreaks d.source updated →
        OpensText after request.target.file path (.ofChars d.language updated)) := by
  obtain ⟨edited, done, rfl⟩ := apply_eq_ok_iff.mp applied
  simp only [Project.edit, change] at done
  obtain ⟨-, kept, loaded, updated, r, load, made, sound, -, ends, -⟩ := updateText_eq_ok done
  obtain ⟨cache, -, load'⟩ := opens.loaded
  rw [load'] at load
  cases load
  obtain ⟨-, settings, plain, roomy⟩ := ends.frame opens.clean
  obtain ⟨beside, holds, outside⟩ := ends.left opens.clean opens.outside
  have text := ends.reads.2
  refine ⟨updated, made, sound, ?_, rfl, ⟨plain, roomy⟩, beside, ?_, fun unmixed => ?_⟩
  · simp [undoData, change]
  · obtain ⟨-, -, copied, middle, last, cache, wrote, -⟩ := ends
    obtain ⟨encoding, bytes, named, encoded, -⟩ := bytes?_of_write opens.clean wrote
    exact ⟨encoding, bytes, named, text ▸ encoded⟩
  · have same : edited.content = updated := text.trans (Classical.not_not.mp unmixed)
    rw [same] at holds
    refine ⟨?_, openDocument_run opens.opened beside.root holds, outside⟩
    have faithful := (updateText_faithful_iff opens.faithful request.target prior new request.id).mpr ?_
    · rwa [done] at faithful
    · rintro ⟨path', kept', updated', edited', opened', made', -, mixed⟩
      rw [opens.opened] at opened'
      cases opened'
      rw [made] at made'
      cases made'
      exact unmixed mixed

/-- An edit of a text that can be made in the document is answered, if the file can be written. -/
theorem apply_of_made (opens : OpensText project request.target.file path d)
    (change : request.change = .textUpdate prior new)
    (made : d.updateText d.source request.target.line request.target.column prior new = .ok updated)
    (sound : (Markup.Document.ofChars d.language updated).hasError = true → d.hasError = true)
    (usable : Usable path) (encodable : Encodable project ((Text.LineBreak.ofText d.source).apply updated)) :
    ∃ result after, project.perform (apply request) = (.ok result, after) := by
  obtain ⟨cache, -, load⟩ := opens.loaded
  obtain ⟨-, holds⟩ := openDocument_holds opens.opened
  obtain ⟨copied, middle, wrote⟩ :=
    write_runs opens.clean usable.plain usable.roomy opens.outside holds encodable
  have wrote' := write_with_cache cache wrote
  obtain ⟨edited, last, committed, -⟩ := commit_run request.target.file (Markup.Document.ofChars d.language updated)
    (keepDocument path) .textUpdate request.id [("originalText", .str prior), ("newText", .str new)] wrote'
  have checked (there : Project) : there.perform (requireSound d.hasError
      (Markup.Document.ofChars d.language updated).hasError request.target.file) = (.ok (), there) := by
    unfold requireSound
    rw [if_neg]
    · rfl
    · simpa using sound
  have done : project.perform (Project.edit request) = (.ok edited, last) := by
    simp only [Project.edit, change]
    unfold updateText
    rw [perform_bind_ok _ load]
    dsimp only
    rw [made, lift, perform_bind_ok _ (perform_pure _ _), perform_bind_ok _ (checked _)]
    exact committed
  exact ⟨_, last, apply_eq_ok_iff.mpr ⟨edited, done, rfl⟩⟩

end OpensText

/-! ### There and back -/

/-- An edit of a text that was answered, at the sign of an element of a document without errors, and what is assumed
of it and of the opposite edit: the element is read as the grammar says, and the text is written as it stands. -/
structure TextReverting where
  project : Project
  request : Request
  result : TransformResult
  later : Project
  path : Files.Path
  document : Markup.Document
  element : Markup.Element
  prior : String
  new : String
  opens : OpensText project request.target.file path document
  sound : document.hasError = false
  found : document.elementAt? element.start = some element
  line : request.target.line = (Text.positionAt document.source element.start).line
  column : request.target.column = (Text.positionAt document.source element.start).column
  change : request.change = .textUpdate prior new
  applied : project.perform (apply request) = (.ok result, later)
  reads : document.Retells element new.toList
  kept : ¬ChangesBreaks document.source (document.retell element new.toList).source
  reads_back : (document.retell element new.toList).Retells (element.retold new.toList) prior.toList
  kept_back : ¬ChangesBreaks (document.retell element new.toList).source
    ((document.retell element new.toList).retell (element.retold new.toList) prior.toList).source

namespace TextReverting

variable (r : TextReverting)

/-- The element with the new text. -/
def changed : Markup.Element := r.element.retold r.new.toList

/-- The document with the new text. -/
def between : Markup.Document := r.document.retell r.element r.new.toList

/-- The document with the first text again. -/
def final : Markup.Document := r.between.retell r.changed r.prior.toList

/-- The text at the place of the request, as it is read from a project. -/
def reading (project : Project) : Except ProjectError String :=
  (project.perform (readText r.request.target.file r.request.target.line r.request.target.column)).1

/-- The request that reverts the edit is answered with success, and the same text is read as before the edit. -/
def Restores (id : String) : Prop :=
  ∃ undo answer after shown, r.result.undoData = some undo ∧
    r.later.perform (apply ⟨id, undo.target, undo.change⟩) = (.ok answer, after) ∧ answer.success = true ∧
      r.reading r.project = .ok shown ∧ r.reading after = .ok shown

/-- The element with the first text again. -/
def renewed : Markup.Element := r.changed.retold r.prior.toList

/-- The edit was made, and left the document with the new text. -/
theorem edited : r.element.closing.isSome = true ∧
    (Text.allBlank r.prior.toList = true ∨ Markup.shown r.element.children = Text.collapsedText r.prior) ∧
    r.result.undoData = some ⟨withoutStyle r.request.target, .textUpdate r.new r.prior⟩ ∧ Usable r.path ∧
    Beside [] r.project r.later ∧ r.between.hasError = false ∧
    OpensText r.later r.request.target.file r.path r.between := by
  obtain ⟨updated, made, sound, undone, -, usable, beside, -, left⟩ := r.opens.made_of_apply r.change r.applied
  rw [r.line, r.column] at made
  obtain ⟨closed, -, same, rfl⟩ := (Markup.Document.updateText_iff r.found).mp made
  refine ⟨closed, same, undone, usable, beside, ?_, left r.kept⟩
  exact Bool.eq_false_iff.mpr fun error => by simpa [r.sound] using sound error

/-- When the opposite edit can be made in the document. -/
theorem updateText_back_iff {updated : List Char} :
    r.between.updateText r.between.source r.request.target.line r.request.target.column r.new r.prior = .ok updated ↔
      (Text.allBlank r.new.toList = true ∨ Markup.shown r.changed.children = Text.collapsedText r.new) ∧
        r.final.source = updated := by
  obtain ⟨closed, same, -⟩ := r.edited
  have unmarked : Markup.Unmarked r.prior.toList := by
    rcases same with blank | shown
    · exact Markup.unmarked_of_blank fun c member => List.all_eq_true.mp blank c member
    · exact Markup.unmarked_of_shown (Markup.Document.mild_of_elementAt? r.found) shown
  have place : Text.positionAt r.between.source r.changed.start =
      Text.positionAt r.document.source r.element.start :=
    Markup.Document.positionAt_retell r.found r.new.toList
  rw [r.line, r.column, ← place, Markup.Document.updateText_iff r.reads.element]
  constructor
  · rintro ⟨-, -, found, source⟩
    exact ⟨found, source⟩
  · rintro ⟨found, source⟩
    exact ⟨closed, unmarked, found, source⟩

/-- What is read at the place of the request, before the edit and after the opposite one. -/
theorem reading_eq : r.reading r.project = .ok (Markup.shown r.element.children) ∧
    ∀ after, OpensText after r.request.target.file r.path r.final →
      r.reading after = .ok (Markup.shown r.renewed.children) := by
  obtain ⟨closed, -⟩ := r.edited
  constructor
  · rw [reading, r.line, r.column, r.opens.readText r.found, Markup.Element.textContent_eq closed]
  · intro after opens
    have place : Text.positionAt r.final.source r.renewed.start =
        Text.positionAt r.document.source r.element.start :=
      (Markup.Document.positionAt_retell r.reads.element r.prior.toList).trans
        (Markup.Document.positionAt_retell r.found r.new.toList)
    have there : r.final.elementAt? r.renewed.start = some r.renewed := r.reads_back.element
    have closed' : r.renewed.closing.isSome = true := closed
    rw [reading, r.line, r.column, ← place, opens.readText there, Markup.Element.textContent_eq closed']

/-- The file with the first text again is written as it stands. -/
theorem unbroken : (Text.LineBreak.ofText r.between.source).apply r.final.source = r.final.source :=
  Classical.not_not.mp r.kept_back

/-- If the opposite edit brings the text back, it is brought back in the element, and can be written. -/
theorem reverts_of_restores {id : String} (restores : r.Restores id) :
    Markup.Reverts r.element.children r.prior r.new ∧ Encodable r.project r.final.source := by
  obtain ⟨-, -, undone, -, beside, sound, opens⟩ := r.edited
  obtain ⟨first, last⟩ := r.reading_eq
  let back : Request := ⟨id, withoutStyle r.request.target, .textUpdate r.new r.prior⟩
  have change : back.change = .textUpdate r.new r.prior := rfl
  have opens' : OpensText r.later back.target.file r.path r.between := opens
  obtain ⟨undo, answer, after, shown, told, applied, -, before, behind⟩ := restores
  rw [undone] at told
  cases told
  obtain ⟨updated, made, sound', -, -, -, -, encodable, left⟩ := opens'.made_of_apply change applied
  obtain ⟨found, rfl⟩ := r.updateText_back_iff.mp made
  rw [last after (left r.kept_back)] at behind
  rw [first] at before
  have clean : r.final.hasError = false := Bool.eq_false_iff.mpr fun error => by simpa [sound] using sound' error
  have errors : r.final.hasError = !Markup.areSound r.renewed.children := r.reads_back.errors
  have complete : Markup.areSound r.renewed.children = true := by simpa [errors] using clean
  refine ⟨⟨found, complete, Except.ok.inj (behind.trans before.symm)⟩, ?_⟩
  rw [r.unbroken] at encodable
  unfold Encodable at encodable ⊢
  rwa [beside.settings] at encodable

/-- If the text is brought back in the element, and can be written, the opposite edit brings it back. -/
theorem restores_of_reverts {id : String} (reverts : Markup.Reverts r.element.children r.prior r.new)
    (encodable : Encodable r.project r.final.source) : r.Restores id := by
  obtain ⟨-, -, undone, usable, beside, -, opens⟩ := r.edited
  obtain ⟨first, last⟩ := r.reading_eq
  let back : Request := ⟨id, withoutStyle r.request.target, .textUpdate r.new r.prior⟩
  have change : back.change = .textUpdate r.new r.prior := rfl
  have opens' : OpensText r.later back.target.file r.path r.between := opens
  have made := r.updateText_back_iff.mpr ⟨reverts.found, rfl⟩
  have sound : r.final.hasError = true → r.between.hasError = true := by
    have clean : r.final.hasError = false := r.reads_back.errors.trans (congrArg (!·) reverts.sound)
    simp [clean]
  have encodable' : Encodable r.later ((Text.LineBreak.ofText r.between.source).apply r.final.source) :=
    r.unbroken.symm ▸ encodable.beside beside
  obtain ⟨answer, after, applied⟩ := opens'.apply_of_made change made sound usable encodable'
  obtain ⟨updated, made', -, -, success, -, -, -, left⟩ := opens'.made_of_apply change applied
  obtain ⟨-, rfl⟩ := r.updateText_back_iff.mp made'
  refine ⟨_, answer, after, _, undone, applied, success, first, ?_⟩
  rw [last after (left r.kept_back)]
  exact congrArg Except.ok reverts.restored

/-- An edit of a text that can be made in the document is one to revert. -/
theorem of_found (request : Request) (opens : OpensText project request.target.file path d)
    (sound : d.hasError = false) (found : d.elementAt? e.start = some e)
    (line : request.target.line = (Text.positionAt d.source e.start).line)
    (column : request.target.column = (Text.positionAt d.source e.start).column)
    (change : request.change = .textUpdate prior new) (closed : e.closing.isSome = true)
    (unmarked : Markup.Unmarked new.toList)
    (same : Text.allBlank prior.toList = true ∨ Markup.shown e.children = Text.collapsedText prior)
    (reads : d.Retells e new.toList) (complete : Markup.areSound (e.retold new.toList).children = true)
    (kept : ¬ChangesBreaks d.source (d.retell e new.toList).source) (usable : Usable path)
    (encodable : Encodable project (d.retell e new.toList).source)
    (reads_back : (d.retell e new.toList).Retells (e.retold new.toList) prior.toList)
    (kept_back : ¬ChangesBreaks (d.retell e new.toList).source
      ((d.retell e new.toList).retell (e.retold new.toList) prior.toList).source) :
    ∃ r : TextReverting, r.project = project ∧ r.document = d ∧ r.element = e ∧ r.prior = prior ∧ r.new = new := by
  have made := (Markup.Document.updateText_iff found).mpr ⟨closed, unmarked, same, rfl⟩
  rw [← line, ← column] at made
  have clean : (d.retell e new.toList).hasError = false := reads.errors.trans (congrArg (!·) complete)
  rw [← Classical.not_not.mp kept] at encodable
  obtain ⟨result, later, applied⟩ :=
    opens.apply_of_made change made (fun error => absurd error (Bool.eq_false_iff.mp clean)) usable encodable
  exact ⟨⟨project, request, result, later, path, d, e, prior, new, opens, sound, found, line, column, change, applied,
    reads, kept, reads_back, kept_back⟩, rfl, rfl, rfl, rfl, rfl⟩

end TextReverting

/-! ### A page with two elements -/

private theorem opens_pageProject : OpensText (pageProject lineText) "a.tsx" (.ofText "/page/a.tsx")
    (.ofChars .tsx lineText.toList) := by
  have read : ((pageProject lineText).perform (readSource "a.tsx")).1.toOption =
      some (.ofText "/page/a.tsx", lineText.toList) := by decide +kernel
  refine ⟨faithful_empty, ?_, ?_⟩
  · have tsx : Markup.Language.ofPath? "a.tsx" = some .tsx := by decide +kernel
    unfold openDocument
    rw [tsx]
    rcases outcome : (pageProject lineText).perform (readSource "a.tsx") with ⟨e | ⟨path, found⟩, after⟩
    · rw [outcome] at read
      cases read
    · rw [outcome] at read
      cases read
      obtain ⟨-, rfl, -⟩ := readSource_eq_ok outcome
      dsimp only
      rw [perform_bind_ok _ outcome]
      rfl
  · have aim : (pageProject lineText).disk.aim (.ofText "/page/a.tsx") = ["page", "a.tsx"] := by
      unfold Files.Disk.aim
      rw [if_pos (by decide)]
      decide
    unfold Outside
    rw [aim]
    show ¬(toolFolder (.ofText "/page")).names <+: ["page", "a.tsx"]
    decide

def lineDocument : Markup.Document := .ofChars .tsx lineText.toList

/-- The first element of the page. -/
def lineElement : Markup.Element := ⟨0, ['p'], [.code "<p>".toList], [.text ['x']], some "</p>".toList⟩

private theorem found_line : lineDocument.elementAt? 0 = some lineElement := by
  decide +kernel

private theorem encodable_page (text : List Char) : Encodable (pageProject lineText) text := by
  refine ⟨.utf8, _, ?_, rfl⟩
  show Files.Encoding.ofName? "utf-8" = some .utf8
  decide

private theorem unmarked_letter : Markup.Unmarked "z".toList := by
  intro c member
  obtain rfl := List.mem_singleton.mp member
  decide

/-- The edit of the first element of the page to a letter. -/
private theorem reverting_line (prior : String)
    (same : Text.allBlank prior.toList = true ∨ Markup.shown lineElement.children = Text.collapsedText prior)
    (reads_back : (lineDocument.retell lineElement "z".toList).Retells (lineElement.retold "z".toList) prior.toList)
    (kept_back : ¬ChangesBreaks (lineDocument.retell lineElement "z".toList).source
      ((lineDocument.retell lineElement "z".toList).retell (lineElement.retold "z".toList) prior.toList).source) :
    ∃ r : TextReverting, r.project = pageProject lineText ∧ r.document = lineDocument ∧ r.element = lineElement ∧
      r.prior = prior ∧ r.new = "z" := by
  have reads : lineDocument.Retells lineElement "z".toList :=
    ⟨by decide +kernel, by decide +kernel⟩
  have kept : ¬ChangesBreaks lineDocument.source (lineDocument.retell lineElement "z".toList).source := by
    unfold ChangesBreaks
    decide +kernel
  have usable : Usable (.ofText "/page/a.tsx") := ⟨by unfold Plain; decide, by decide +kernel⟩
  have place : Text.positionAt lineDocument.source lineElement.start = ⟨1, 1⟩ := by decide +kernel
  have line : (firstRequest prior "z").target.line = (Text.positionAt lineDocument.source lineElement.start).line := by
    rw [place]
    rfl
  have column : (firstRequest prior "z").target.column =
      (Text.positionAt lineDocument.source lineElement.start).column := by
    rw [place]
    rfl
  exact TextReverting.of_found (firstRequest prior "z") opens_pageProject (by decide +kernel) found_line line column
    rfl rfl unmarked_letter same reads (by decide +kernel) kept usable (encodable_page _) reads_back kept_back

end Retouch.Project
