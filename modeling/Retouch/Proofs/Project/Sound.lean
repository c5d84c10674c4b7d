import Retouch.Proofs.Project.Committed
import Retouch.Proofs.Project.Frame
import Retouch.Proofs.Project.Reverting
import Retouch.Proofs.Project.Undo

/-!
# Sources that stay free of syntax errors

Copies, drafts and records have suffixes of their own, so an edit leaves every source but its own as it was,
wherever it lies; and an edit that fails leaves its own as well.

An edit is refused when it would bring a syntax error into a text that has none, as far as this is known: what
is compared is the reading of the new text with the reading that was kept. So the cache must not hold a reading
with an error for a text without one. An edit breaks this only when it breaks off in the middle, and the sheet
that it has changed already is kept under the text that the file still has.

The text of an edit is checked before it gets the line breaks of its file. It is taken for granted, for the texts
that the edits of a run make, that their line breaks do not decide whether they have errors.

## Main statements

* `alike_of_edit_error`: a failed edit changes no source.
* `alike_of_edit`: an edit that is made changes no source but its own.
* `honest_step_iff`: after an edit the cache holds no false reading again, just if the edit does not break off so.
* `sound_step`: an edit over such a cache leaves a source without errors as one without errors.
* `sound_throughout`: in a run of edits none of which breaks off so, a source without errors stays one.
-/
namespace Retouch.Project

/-! ### What an edit does to the other files -/

section sources

variable {α β : Type} {place : Files.Place} {project before after : Project} {path : Files.Path}
  {request : Request} {edited : Edited}

/-- The suffixes of the files that a project makes for itself. -/
def ownSuffixes : List String := [".tmp", ".backup", recordSuffix]

/-- The suffix of the file at a place. -/
def suffixAt (place : Files.Place) : String := Files.Path.suffix ⟨true, place⟩

/-- The file at a place is none that a project makes for itself. -/
def Foreign (place : Files.Place) : Prop := suffixAt place ∉ ownSuffixes

instance (place : Files.Place) : Decidable (Foreign place) := inferInstanceAs (Decidable (¬_))

/-- The same folder and settings, and the same bytes at a place. -/
structure Alike (place : Files.Place) (before after : Project) : Prop where
  root : after.root = before.root
  settings : after.settings = before.settings
  bytes : after.disk.bytes? place = before.disk.bytes? place

namespace Alike

theorem refl (place : Files.Place) (project : Project) : Alike place project project := ⟨rfl, rfl, rfl⟩

theorem trans {first second third : Project} (early : Alike place first second)
    (late : Alike place second third) : Alike place first third :=
  ⟨late.root.trans early.root, late.settings.trans early.settings, late.bytes.trans early.bytes⟩

end Alike

/-- What is said of one file says nothing of the cache. -/
theorem frame_alike (place : Files.Place) : Frame (Alike place) := ⟨fun _ _ => ⟨rfl, rfl, rfl⟩, .trans⟩

/-! ### Files of the project itself -/

theorem suffixAt_concat (folder : Files.Place) {name : String} {front back : List Char}
    (whole : name.toList = front ++ '.' :: back) (named : front ≠ []) (more : back ≠ []) (last : '.' ∉ back) :
    suffixAt (folder ++ [name]) = String.ofList (Text.lowerChars ('.' :: back)) := by
  unfold suffixAt Files.Path.suffix Files.Path.lastName
  rw [List.getLastD_concat, whole, Files.suffixOfName_append named more last]

theorem suffixAt_copy (folder : Files.Place) (path : Files.Path) (number : Nat) :
    suffixAt (folder ++ [backupName path number]) = ".backup" := by
  have whole : (backupName path number).toList =
      (path.lastName.toList ++ '.' :: (toString number).toList) ++ '.' :: ['b', 'a', 'c', 'k', 'u', 'p'] := by
    simp [backupName]
  rw [suffixAt_concat folder whole (by simp) (by simp) (by decide)]
  decide

theorem suffixAt_draft (folder : Files.Place) (path : Files.Path) (number : Nat) :
    suffixAt (folder ++ [draftName path number]) = ".tmp" := by
  have whole : (draftName path number).toList =
      ('.' :: path.lastName.toList ++ '.' :: (toString number).toList) ++ '.' :: ['t', 'm', 'p'] := by
    simp [draftName]
  rw [suffixAt_concat folder whole (by simp) (by simp) (by decide)]
  decide

theorem Foreign.ne {other : Files.Place} (foreign : Foreign place) (own : suffixAt other ∈ ownSuffixes) :
    other ≠ place := by
  rintro rfl
  exact foreign own

theorem alike_backUp (foreign : Foreign place) (path : Files.Path) (bytes : Text.Bytes) :
    Within (Alike place) (backUp path bytes) := by
  intro project
  unfold backUp
  rw [perform_bind_ok _ (perform_get _)]
  dsimp only
  split
  · exact .refl place project
  · rename_i disk made
    have folders := Files.Disk.bytes?_makeFolders made place
    split
    · exact ⟨rfl, rfl, folders⟩
    · refine ⟨rfl, rfl, Eq.trans ?_ folders⟩
      have other : ((backupsFolder project.root).child (backupName path disk.writes)).names ≠ place :=
        foreign.ne (by rw [Files.Path.child, suffixAt_copy]; decide)
      exact (Files.Disk.bytes?_write _ _ _ _ (by simp [Files.Path.child])).trans (if_neg other)

theorem alike_record (foreign : Foreign place) (r : Record) : Within (Alike place) (record r) := by
  intro project
  rcases outcome : project.perform (record r) with ⟨e | transaction, after⟩
  · obtain ⟨_, _, done⟩ := completes_record r project
    rw [outcome] at done
    cases done
  · cases transaction with
    | none =>
      rw [record_eq_ok_none outcome]
      exact .refl place project
    | some id =>
      have bytes := bytes?_of_record outcome place
      obtain ⟨disk, made, rfl, rfl⟩ := record_eq_ok outcome
      have own : suffixAt (recordFile project (transactionId (project.recorded + 1))).names = recordSuffix :=
        suffix_recordFile project _
      rw [if_neg (foreign.ne (by rw [own]; decide))] at bytes
      exact ⟨rfl, rfl, bytes⟩

/-! ### Writing -/

theorem alike_replaceFile_error (foreign : Foreign place) (path : Files.Path) (content : List Char) :
    WithinFailing (Alike place) (replaceFile path content) := by
  intro project e after failed
  unfold replaceFile at failed
  rw [perform_bind_ok _ (perform_get _)] at failed
  rcases perform_bind_eq_error _ failed with stopped | ⟨there, middle, located, failed⟩
  · exact ((frame_alike place).lift _ _).related stopped
  · obtain ⟨-, rfl⟩ := perform_lift_eq_ok _ located
    dsimp only at failed
    split at failed
    · rw [perform_bind_error _ (perform_refuse _ _ _ _)] at failed
      cases failed
      exact .refl place project
    · split at failed
      · exact ((frame_alike place).throw _).related failed
      · split at failed
        · cases failed
        · -- A draft is left behind, but its suffix is one of its own.
          rw [perform_bind_ok _ (perform_set _ _)] at failed
          cases failed
          refine ⟨rfl, rfl, ?_⟩
          rw [Files.Disk.bytes?_write _ _ _ _ (by simp), if_neg]
          exact foreign.ne (by rw [suffixAt_draft]; decide)

/-- Of the other files a write changes none. -/
theorem alike_of_write {known content written : List Char} {copied : Bool}
    (foreign : Foreign place) (clean : Files.Path.back ∉ path.names) (absolute : path.absolute = true)
    (other : path.names ≠ place)
    (done : project.perform (write path content (some known)) = (.ok (written, copied), after)) :
    Alike place project after := by
  have aim (project : Project) : project.disk.aim path = path.names := by
    simp [Files.Disk.aim, absolute]
  have inner := aim_ne_nil clean (write_eq_ok done).1
  unfold write at done
  obtain ⟨⟨current, copied'⟩, middle, prepared, done⟩ := perform_bind_eq_ok project done
  obtain ⟨_, last, replaced, done⟩ := perform_bind_eq_ok middle done
  cases done
  refine (((frame_alike place).prepareWrite (alike_backUp foreign path) _).related prepared).trans ?_
  obtain ⟨there, encoding, bytes, found, -, -, -, rfl⟩ := replaceFile_eq_ok_iff.mp replaced
  obtain rfl := Files.Disk.locate_clean clean found
  rw [aim] at inner ⊢
  exact ⟨rfl, rfl, (Files.Disk.bytes?_write _ _ _ _ inner).trans (if_neg other)⟩

/-! ### Edits -/

/-- A failed edit changes no source. -/
theorem alike_of_edit_error {e : ProjectError} (foreign : Foreign place)
    (failed : project.perform (edit request) = (.error e, after)) : Alike place project after :=
  (frame_alike place).failing_edit (alike_backUp foreign) (alike_replaceFile_error foreign) request project e after
    failed

/-- An edit that is made changes no source but its own. -/
theorem alike_of_edit (foreign : Foreign place) (absolute : (project.resolve (editedFile request)).absolute = true)
    (other : (project.resolve (editedFile request)).names ≠ place)
    (done : project.perform (edit request) = (.ok edited, after)) : Alike place project after := by
  obtain ⟨-, _, _, r, -, -, -, copied, middle, last, cache, wrote, noted, rfl⟩ := edit_eq_ok done
  have written := alike_of_write foreign (clean_resolve _ _) absolute other wrote
  have same : Alike place middle last := by
    rcases noted with ⟨-, -, rfl⟩ | recorded
    · exact .refl place _
    · exact (alike_record foreign r).related recorded
  have whole := written.trans same
  exact ⟨whole.root, whole.settings, whole.bytes⟩

end sources

variable {project after : Project} {path : Files.Path} {place : Files.Place} {request : Request}
  {text known : List Char} {edited : Edited}

/-! ### Readings with errors -/

/-- Whether a text has a syntax error, when it is read as a source of the name of the path is. -/
def syntaxError? (path : Files.Path) (text : List Char) : Option Bool :=
  match languageOf path with
  | some language => some (Markup.Document.ofChars language text).hasError
  | none => if path.suffix = Files.styleSuffix then some (Sheet.ofChars text).hasError else none

/-- No reading in the cache has an error that its text does not have. -/
structure Honest (cache : Cache) : Prop where
  documents : ∀ path kept, Table.get? cache.documents path = some kept →
    languageOf path = some kept.parsed.language ∧ (kept.parsed.hasError = true →
      (Markup.Document.ofChars kept.parsed.language kept.text).hasError = true)
  sheets : ∀ path kept, Table.get? cache.sheets path = some kept →
    (kept.parsed.hasError = true → (Sheet.ofChars kept.text).hasError = true)

theorem Faithful.honest {cache : Cache} (faithful : Faithful cache) : Honest cache := by
  refine ⟨fun path kept found => ?_, fun path kept found error => ?_⟩
  · obtain ⟨language, known, read⟩ := faithful.documents path kept found
    rw [read]
    exact ⟨known, id⟩
  · rwa [← faithful.sheets path kept found]

namespace Honest

variable {cache : Cache}

theorem keepDocument (honest : Honest cache) (path : Files.Path) {kept : Cached Markup.Document}
    (known : languageOf path = some kept.parsed.language)
    (told : kept.parsed.hasError = true →
      (Markup.Document.ofChars kept.parsed.language kept.text).hasError = true) :
    Honest (keepDocument path kept cache) := by
  refine ⟨fun other found there => ?_, honest.sheets⟩
  simp only [Project.keepDocument, Table.get?_put] at there
  split at there
  · rename_i same
    subst same
    cases there
    exact ⟨known, told⟩
  · exact honest.documents other found there

theorem keepSheet_iff (honest : Honest cache) (path : Files.Path) (kept : Cached Sheet) :
    Honest (keepSheet path kept cache) ↔
      (kept.parsed.hasError = true → (Sheet.ofChars kept.text).hasError = true) := by
  constructor
  · intro after
    exact after.sheets path kept (by simp [keepSheet, Table.get?_put])
  · intro told
    refine ⟨honest.documents, fun other found there => ?_⟩
    simp only [keepSheet, Table.get?_put] at there
    split at there
    · cases there
      exact told
    · exact honest.sheets other found there

/-- What is forgotten need not be honest. -/
theorem drop_keepSheet (honest : Honest cache) (path : Files.Path) (kept : Cached Sheet) :
    Honest ((Project.keepSheet path kept cache).drop path) := by
  refine ⟨fun other found there => ?_, fun other found there => ?_⟩
  · simp only [Cache.drop, Project.keepSheet, Table.get?_drop] at there
    split at there
    · cases there
    · exact honest.documents other found there
  · simp only [Cache.drop, Project.keepSheet, Table.get?_drop, Table.get?_put] at there
    split at there
    · cases there
    · exact honest.sheets other found there

/-! ### Loading -/

/-- A document that is loaded has no error that its text does not have. -/
theorem loadDocument (honest : Honest project.cache) {file : String} {kept : Cached Markup.Document}
    (done : project.perform (loadDocument file) = (.ok (path, kept), after)) :
    Honest after.cache ∧ languageOf path = some kept.parsed.language ∧ (kept.parsed.hasError = true →
      (Markup.Document.ofChars kept.parsed.language kept.text).hasError = true) := by
  obtain ⟨language, known, rfl, -, ⟨fresh, rfl⟩ | ⟨-, read, rfl⟩⟩ := loadDocument_eq_ok done
  · have told := honest.documents _ _ (fresh?_eq_some.mp fresh)
    exact ⟨⟨honest.documents, honest.sheets⟩, told⟩
  · have named := languageOf_resolve project known
    have told : languageOf (project.resolve file) = some kept.parsed.language ∧ (kept.parsed.hasError = true →
        (Markup.Document.ofChars kept.parsed.language kept.text).hasError = true) := by
      rw [read]
      exact ⟨named, id⟩
    have put := honest.keepDocument _ told.1 told.2
    exact ⟨⟨put.documents, put.sheets⟩, told⟩

/-- A sheet that is loaded has no error that its text does not have. -/
theorem loadSheet (honest : Honest project.cache) {file : String} {kept : Cached Sheet}
    (done : project.perform (loadSheet file) = (.ok (path, kept), after)) :
    Honest after.cache ∧ (kept.parsed.hasError = true → (Sheet.ofChars kept.text).hasError = true) := by
  obtain ⟨rfl, -, ⟨fresh, rfl⟩ | ⟨-, read, rfl⟩⟩ := loadSheet_eq_ok done
  · exact ⟨⟨honest.documents, honest.sheets⟩, honest.sheets _ _ (fresh?_eq_some.mp fresh)⟩
  · have told : kept.parsed.hasError = true → (Sheet.ofChars kept.text).hasError = true := by
      rw [read]
      exact id
    have put := (honest.keepSheet_iff (project.resolve file) kept).mpr told
    exact ⟨⟨put.documents, put.sheets⟩, told⟩

end Honest

/-- A document that is not loaded leaves the cache as it is. -/
theorem cache_of_loadDocument_error {file : String} {e : ProjectError}
    (failed : project.perform (loadDocument file) = (.error e, after)) : after.cache = project.cache := by
  unfold loadDocument at failed
  split at failed
  · cases failed
    rfl
  · rcases perform_bind_eq_error _ failed with stopped | ⟨⟨path, text⟩, middle, read, failed⟩
    · exact (blind_readSource file).cache_of stopped
    · rw [perform_bind_ok _ (perform_get _)] at failed
      dsimp only at failed
      split at failed <;> rw [perform_bind_ok _ (perform_modifyCache _ _)] at failed <;> cases failed

theorem cache_of_loadSheet_error {file : String} {e : ProjectError}
    (failed : project.perform (loadSheet file) = (.error e, after)) : after.cache = project.cache := by
  unfold loadSheet at failed
  rcases perform_guard_eq_error _ failed with rfl | failed
  · rfl
  · rcases perform_guard_eq_error _ failed with rfl | failed
    · rfl
    · rcases perform_bind_eq_error _ failed with stopped | ⟨⟨path, text⟩, middle, read, failed⟩
      · exact (blind_readSource file).cache_of stopped
      · rw [perform_bind_ok _ (perform_get _)] at failed
        dsimp only at failed
        split at failed <;> rw [perform_bind_ok _ (perform_modifyCache _ _)] at failed <;> cases failed

/-! ### What an edit makes -/

/-- The text that an edit makes of its file, before it gets the line breaks of the file. -/
def made? (project : Project) (request : Request) : Option (List Char) :=
  match request.change with
  | .textUpdate prior new => do
    let (_, kept) ← (project.perform (loadDocument request.target.file)).1.toOption
    (kept.parsed.updateText kept.text request.target.line request.target.column prior new).toOption
  | change => do
    let edit ← change.sheetEdit?
    let selector ← request.target.selectors.getLast?
    let (_, kept) ← (project.perform (loadSheet request.target.styleFile)).1.toOption
    return (edit kept.parsed selector).sheet.source

/-- Whether a text has a syntax error does not depend on its line breaks. -/
def Indifferent (path : Files.Path) (text : List Char) : Prop :=
  ∀ kind : Text.LineBreak, syntaxError? path (kind.apply text) = syntaxError? path text

/-- An edit of styles breaks off, with no refusal, after it has brought a syntax error into a sheet whose text
has none. -/
def BreaksOff (project : Project) (request : Request) : Prop :=
  ∃ edit selector path kept e, request.change.sheetEdit? = some edit ∧
    request.target.selectors.getLast? = some selector ∧
    (project.perform (loadSheet request.target.styleFile)).1 = .ok (path, kept) ∧
    (project.perform (Project.edit request)).1 = .error e ∧ ¬IsRefused e ∧
    (edit kept.parsed selector).sheet.hasError = true ∧ (Sheet.ofChars kept.text).hasError = false

/-- An edit does not break off, and what it makes is a text whose line breaks do not matter. -/
structure Whole (project : Project) (request : Request) : Prop where
  ends : ¬BreaksOff project request
  indifferent : ∀ text, made? project request = some text →
    Indifferent (project.resolve (editedFile request)) text

/-! ### One edit -/

theorem kind_or_styled (request : Request) : (∃ prior new, request.change = .textUpdate prior new) ∨
    ∃ edit, request.change.sheetEdit? = some edit ∧ editedFile request = request.target.styleFile := by
  unfold editedFile
  cases request.change with
  | textUpdate prior new => exact .inl ⟨prior, new, rfl⟩
  | _ => exact .inr ⟨_, rfl, rfl⟩

/-- What an edit makes has no syntax error that its file did not have, and it is kept as it is read. -/
theorem edit_makes (honest : Honest project.cache) (done : project.perform (edit request) = (.ok edited, after)) :
    ∃ known updated r error,
      Ends project (project.resolve (editedFile request)) known updated r edited after ∧
      made? project request = some updated ∧
      syntaxError? (project.resolve (editedFile request)) updated = some error ∧
      (error = true → syntaxError? (project.resolve (editedFile request)) known = some true) ∧
      (syntaxError? (project.resolve (editedFile request)) edited.content = some error → Honest after.cache) := by
  rcases kind_or_styled request with ⟨prior, new, change⟩ | ⟨edit, styled, file⟩
  · have file : editedFile request = request.target.file := by simp [editedFile, change]
    simp only [Project.edit, change] at done
    obtain ⟨-, kept, loaded, updated, r, load, made, sound, -, ends, cache⟩ := updateText_eq_ok done
    obtain ⟨honest', known, told⟩ := honest.loadDocument load
    rw [file]
    refine ⟨_, updated, r, _, ends, ?_, by rw [syntaxError?, known], fun error => ?_, fun same => ?_⟩
    · simp [made?, change, load, made, Except.toOption]
    · rw [syntaxError?, known]
      exact congrArg some (told (sound error))
    · rw [syntaxError?, known] at same
      rw [cache]
      exact honest'.keepDocument _ known fun error => (Option.some.inj same).trans error
  · rw [edit_eq_editSheet styled] at done
    obtain ⟨suffix, selector, kept, loaded, r, chosen, load, -, sound, -, ends, cache⟩ := editSheet_ends done
    obtain ⟨honest', told⟩ := honest.loadSheet load
    have other : languageOf (project.resolve request.target.styleFile) = none := by
      unfold languageOf
      rw [suffix]
      decide
    have read (text : List Char) : syntaxError? (project.resolve request.target.styleFile) text =
        some (Sheet.ofChars text).hasError := by
      rw [syntaxError?, other]
      exact if_pos suffix
    -- A sheet is always what its own text is read as.
    have own := (sheet_eq_ofChars_iff (edit kept.parsed selector).sheet _).mpr rfl
    rw [file]
    refine ⟨_, _, r, _, ends, ?_, read _, fun error => ?_, fun same => ?_⟩
    · cases change : request.change with
      | textUpdate prior new =>
        rw [change] at styled
        cases styled
      | _ =>
        rw [change] at styled
        simp [made?, change, styled, chosen, load, Except.toOption]
    · rw [read]
      exact congrArg some (told (sound (own ▸ error)))
    · rw [read, ← own] at same
      rw [cache]
      exact (honest'.keepSheet_iff _ _).mpr fun error => (Option.some.inj same).trans error

/-- When the edit of a text fails, the cache holds no false reading. -/
theorem honest_of_updateText_error {target : SourceLocator} {prior new requestId : String} {e : ProjectError}
    (honest : Honest project.cache)
    (failed : project.perform (updateText target prior new requestId) = (.error e, after)) :
    Honest after.cache := by
  unfold updateText at failed
  rcases perform_bind_eq_error _ failed with unread | ⟨⟨path, kept⟩, loaded, load, failed⟩
  · exact cache_of_loadDocument_error unread ▸ honest
  · have honest' := (honest.loadDocument load).1
    rcases perform_bind_eq_error _ failed with unmade | ⟨updated, middle, spliced, failed⟩
    · exact (Blind.lift _ _).cache_of unmade ▸ honest'
    · obtain ⟨-, rfl⟩ := perform_lift_eq_ok _ spliced
      rcases perform_bind_eq_error _ failed with unsound | ⟨_, middle, checked, failed⟩
      · exact (blind_requireSound _ _ _).cache_of unsound ▸ honest'
      · have same := (blind_requireSound _ _ _).cache_of checked
        rcases commit_cases middle target.file path kept.text updated
          (Markup.Document.ofChars kept.parsed.language updated) (keepDocument path) .textUpdate requestId
          [("originalText", .str prior), ("newText", .str new)] with
          ⟨e', last, unwritten, run⟩ | ⟨_, _, _, _, _, -, run, -⟩
        · rw [run] at failed
          cases failed
          rw [(blind_write _ _ _).cache_of unwritten, same]
          exact honest'
        · rw [run] at failed
          cases failed

/-- When the edit of a sheet fails, the cache holds no false reading, or the changed sheet stays in it. -/
theorem editSheet_error_cases {target : SourceLocator} {kind : TransformKind} {requestId : String}
    {edit : SheetEdit} {e : ProjectError} (honest : Honest project.cache)
    (failed : project.perform (editSheet target kind requestId edit) = (.error e, after)) :
    (Honest after.cache ∧ (IsRefused e ∨ target.selectors.getLast? = none ∨
      ∃ e', (project.perform (loadSheet target.styleFile)).1 = .error e')) ∨
    ∃ selector path kept loaded, target.selectors.getLast? = some selector ∧
      project.perform (loadSheet target.styleFile) = (.ok (path, kept), loaded) ∧ ¬IsRefused e ∧
      after.cache = keepSheet path ⟨kept.text, (edit kept.parsed selector).sheet⟩ loaded.cache := by
  unfold editSheet at failed
  rcases perform_bind_eq_error _ failed with unchosen | ⟨selector, started, chosen, failed⟩
  · refine .inl ⟨(blind_targetSelector _).cache_of unchosen ▸ honest, .inr (.inl ?_)⟩
    unfold targetSelector at unchosen
    split at unchosen
    · cases unchosen
    · assumption
  · obtain ⟨found, rfl⟩ : target.selectors.getLast? = some selector ∧ project = started := by
      unfold targetSelector at chosen
      split at chosen <;> cases chosen
      exact ⟨by assumption, rfl⟩
    rcases perform_bind_eq_error _ failed with unread | ⟨⟨path, kept⟩, loaded, load, failed⟩
    · exact .inl ⟨cache_of_loadSheet_error unread ▸ honest, .inr (.inr ⟨e, by rw [unread]⟩)⟩
    · have tried := attempt_cases loaded target.styleFile path kept (edit kept.parsed selector) kind requestId
        selector
      dsimp only at failed
      rw [perform_try] at failed
      split at tried
      · rename_i e' last outcome
        simp only [outcome] at failed
        cases e' with
        | refused reason =>
          rw [if_pos rfl, perform_bind_ok _ (perform_modifyCache _ _)] at failed
          cases failed
          refine .inl ⟨?_, .inl ⟨reason, rfl⟩⟩
          dsimp only
          rw [tried]
          exact (honest.loadSheet load).1.drop_keepSheet path _
        | _ =>
          cases failed
          exact .inr ⟨selector, path, kept, loaded, found, load, by simp [IsRefused], tried⟩
      · rename_i outcome
        simp only [outcome] at failed
        cases failed

/-- After an edit the cache holds no false reading again, just if the edit does not break off so. -/
theorem honest_step_iff (honest : Honest project.cache) (indifferent : ∀ text,
    made? project request = some text → Indifferent (project.resolve (editedFile request)) text) :
    Honest (project.perform (edit request)).2.cache ↔ ¬BreaksOff project request := by
  rcases outcome : project.perform (edit request) with ⟨e | edited, after⟩
  · rcases kind_or_styled request with ⟨prior, new, change⟩ | ⟨edit, styled, -⟩
    · have other : ¬BreaksOff project request := by
        rintro ⟨_, _, _, _, _, styled, -⟩
        rw [change] at styled
        cases styled
      simp only [Project.edit, change] at outcome
      exact iff_of_true (honest_of_updateText_error honest outcome) other
    · have failed := outcome
      rw [edit_eq_editSheet styled] at failed
      rcases editSheet_error_cases honest failed with
        ⟨kept, reason⟩ | ⟨selector, path, kept, loaded, chosen, load, broken, cache⟩
      · refine iff_of_true kept ?_
        rintro ⟨_, _, _, _, e', -, chosen, load, failed', broken, -⟩
        rw [outcome] at failed'
        cases failed'
        rcases reason with refused | unchosen | ⟨e', unread⟩
        · exact broken refused
        · cases chosen.symm.trans unchosen
        · cases load.symm.trans unread
      · rw [cache, (honest.loadSheet load).1.keepSheet_iff]
        constructor
        · rintro told ⟨edit', _, _, _, _, styled', chosen', load', -, -, error, sound⟩
          obtain rfl := Option.some.inj (styled.symm.trans styled')
          obtain rfl := Option.some.inj (chosen.symm.trans chosen')
          rw [load] at load'
          cases load'
          cases sound.symm.trans (told error)
        · intro whole error
          cases sound : (Sheet.ofChars kept.text).hasError with
          | true => rfl
          | false =>
            exact absurd ⟨edit, selector, path, kept, e, styled, chosen, by rw [load], by rw [outcome], broken,
              error, sound⟩ whole
  · obtain ⟨known, updated, r, error, ends, made, read, -, kept⟩ := edit_makes honest outcome
    refine iff_of_true (kept ?_) ?_
    · rw [ends.reads.2, indifferent updated made, read]
    · rintro ⟨_, _, _, _, _, -, -, -, failed, -⟩
      rw [outcome] at failed
      cases failed

/-! ### Sources without errors -/

/-- The file at a place is a source without syntax errors. -/
def SoundAt (project : Project) (place : Files.Place) : Prop :=
  ∃ bytes encoding text, project.disk.bytes? place = some bytes ∧
    Files.Encoding.ofName? project.settings.encoding = some encoding ∧ encoding.decode bytes = .ok text ∧
    syntaxError? ⟨true, place⟩ text = some false

/-- A source has none of the suffixes of the files that a project makes for itself. -/
theorem foreign_of_source {error : Bool} (read : syntaxError? ⟨true, place⟩ text = some error) :
    Foreign place := by
  intro own
  have none : syntaxError? ⟨true, place⟩ text = none := by
    unfold syntaxError? languageOf
    change suffixAt place ∈ _ at own
    change (match (Markup.Language.suffixes.find? fun entry => entry.1 == suffixAt place).map Prod.snd with
      | some language => some (Markup.Document.ofChars language text).hasError
      | none => if suffixAt place = Files.styleSuffix then some (Sheet.ofChars text).hasError else none) = _
    simp only [ownSuffixes, List.mem_cons, List.not_mem_nil, or_false] at own
    rcases own with same | same | same <;> rw [same] <;> rfl
  rw [none] at read
  cases read

theorem SoundAt.alike (sound : SoundAt project place) (alike : Alike place project after) :
    SoundAt after place := by
  unfold SoundAt
  rw [alike.bytes, alike.settings]
  exact sound

/-- An edit over a cache without false readings leaves a source without errors as one without errors. -/
theorem sound_step (absolute : project.root.absolute = true) (honest : Honest project.cache)
    (whole : Whole project request) (sound : SoundAt project place) :
    SoundAt (project.perform (edit request)).2 place := by
  obtain ⟨bytes, encoding, text, there, named, decoded, clean⟩ := sound
  have foreign := foreign_of_source clean
  have rooted := absolute_resolve absolute (editedFile request)
  rcases outcome : project.perform (edit request) with ⟨e | edited, after⟩
  · exact SoundAt.alike ⟨bytes, encoding, text, there, named, decoded, clean⟩ (alike_of_edit_error foreign outcome)
  · by_cases same : (project.resolve (editedFile request)).names = place
    · obtain ⟨known, updated, r, error, ends, made, read, whence, -⟩ := edit_makes honest outcome
      have path : project.resolve (editedFile request) = ⟨true, place⟩ := by
        rw [← same, ← rooted]
      obtain ⟨⟨held, encoding', found, named', decoded'⟩, content⟩ := ends.reads
      have bytes' := bytes?_of_read rooted (clean_resolve _ _) found
      rw [same, there] at bytes'
      obtain rfl := Option.some.inj bytes'
      obtain rfl := Option.some.inj (named.symm.trans named')
      obtain rfl := Except.ok.inj (decoded.symm.trans decoded')
      obtain ⟨encoding', written, named', encoded, held⟩ := ends.written (clean_resolve _ _)
        (edit_eq_ok outcome).1 rooted
      rw [path] at read whence
      have good : error = false := by
        cases error with
        | false => rfl
        | true => exact absurd (Option.some.inj (clean.symm.trans (whence rfl))) (by decide)
      refine ⟨written, encoding', edited.content, same ▸ held, ?_, Files.Encoding.decode_encode encoded, ?_⟩
      · rw [(ends.frame (clean_resolve _ _)).2.1]
        exact named'
      · rw [content, ← path, whole.indifferent updated made, path, read, good]
    · exact SoundAt.alike ⟨bytes, encoding, text, there, named, decoded, clean⟩
        (alike_of_edit foreign rooted same outcome)

/-! ### Runs -/

/-- A project after some requests, each of them answered with success or with an error. -/
def transformed (project : Project) (requests : List Request) : Project :=
  requests.foldl (fun project request => (project.perform (apply request)).2) project

/-- No edit of a run breaks off so, and what the edits make are texts whose line breaks do not matter. -/
def Unbroken (project : Project) : List Request → Prop
  | [] => True
  | request :: rest => Whole project request ∧ Unbroken (project.perform (apply request)).2 rest

theorem perform_apply (project : Project) (request : Request) :
    (project.perform (apply request)).2 = (project.perform (edit request)).2 := by
  unfold apply
  rcases outcome : project.perform (edit request) with ⟨e | edited, after⟩
  · rw [perform_bind_error _ outcome]
  · rw [perform_bind_ok _ outcome]
    rfl

/-- An edit leaves the folder of a project. -/
theorem root_of_edit (project : Project) (request : Request) :
    (project.perform (edit request)).2.root = project.root := by
  rcases outcome : project.perform (edit request) with ⟨e | edited, after⟩
  · have other : Foreign [] := by decide
    exact (alike_of_edit_error other outcome).root
  · obtain ⟨-, _, _, r, -, ends⟩ := edit_eq_ok outcome
    exact (ends.frame (clean_resolve _ _)).1

private theorem sound_run (requests : List Request) : ∀ {project : Project}, project.root.absolute = true →
    Honest project.cache → Unbroken project requests → SoundAt project place →
    ∀ count, SoundAt (transformed project (requests.take count)) place := by
  induction requests with
  | nil =>
    intro project _ _ _ sound count
    simpa [transformed] using sound
  | cons request rest ih =>
    rintro project absolute honest ⟨whole, unbroken⟩ sound (_ | count)
    · exact sound
    · show SoundAt (transformed (project.perform (apply request)).2 (rest.take count)) place
      rw [perform_apply] at unbroken ⊢
      refine ih (root_of_edit project request ▸ absolute) ?_ unbroken (sound_step absolute honest whole sound) count
      exact (honest_step_iff honest whole.indifferent).mpr whole.ends

/-- In a run of requests over a faithful cache, none of whose edits breaks off so, each source without syntax
errors stays one after each request. -/
theorem sound_throughout (absolute : project.root.absolute = true) (faithful : Faithful project.cache)
    {requests : List Request} (unbroken : Unbroken project requests) (sound : SoundAt project place) (count : Nat) :
    SoundAt (transformed project (requests.take count)) place :=
  sound_run requests absolute faithful.honest unbroken sound count

/-- An edit of a text does not break off so. -/
private theorem whole_of_text {prior new : String} (change : request.change = .textUpdate prior new)
    (indifferent : ∀ text, made? project request = some text →
      Indifferent (project.resolve (editedFile request)) text) : Whole project request := by
  refine ⟨?_, indifferent⟩
  rintro ⟨_, _, _, _, _, styled, -⟩
  rw [change] at styled
  cases styled

/-- An edit of a page with line breaks, and one that is refused, leave it free of errors. -/
theorem sound_throughout_page :
    SoundAt (transformed (pageProject lineText) [firstRequest "x" "z", firstRequest "z" "<"]) ["page", "a.tsx"] := by
  have first : made? (pageProject lineText) (firstRequest "x" "z") = some "<p>z</p>;\n<b>y</b>;\n".toList := by
    decide +kernel
  have second : made? ((pageProject lineText).perform (apply (firstRequest "x" "z"))).2
      (firstRequest "z" "<") = none := by
    decide +kernel
  have unbroken : Unbroken (pageProject lineText) [firstRequest "x" "z", firstRequest "z" "<"] := by
    refine ⟨whole_of_text rfl fun text made kind => ?_, whole_of_text rfl fun text made => ?_, trivial⟩
    · obtain rfl := Option.some.inj (first.symm.trans made)
      cases kind <;> decide +kernel
    · cases second.symm.trans made
  have sound : SoundAt (pageProject lineText) ["page", "a.tsx"] :=
    ⟨Text.Utf8.encode lineText.toList, .utf8, lineText.toList, by decide +kernel, by decide +kernel,
      Files.Encoding.decode_encode rfl, by decide +kernel⟩
  exact sound_throughout (by decide) faithful_empty unbroken sound 2

end Retouch.Project
