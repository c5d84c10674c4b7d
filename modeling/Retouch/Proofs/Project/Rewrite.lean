import Retouch.Proofs.Files.Disk
import Retouch.Proofs.Project.Faithful

/-!
# Files of a project that are written and read again

A file that was written holds the text as it was written, and goes on doing so while copies are made and
transforms are recorded, which is done in a folder of its own. A file that holds the expected text can be
written if its name is usable and the new text has bytes in the encoding of the project.

## Main statements

* `write_eq_ok_holds`: a file that was written holds what was written.
* `write_runs`: when a file can be written.
-/
namespace Retouch.Project

variable {α : Type} {project before after : Project} {path : Files.Path} {place : Files.Place}
  {text content written known : List Char} {file : String}

theorem eq_ok_of_toOption {ε α : Type} {outcome : Except ε α} {a : α}
    (same : outcome.toOption = some a) : outcome = .ok a := by
  cases outcome with
  | error e => cases same
  | ok b => exact congrArg _ (Option.some.inj same)

/-! ### What changes elsewhere -/

/-- A project with the same root and settings, in which what is on the way to a place is still there. -/
structure Beside (place : Files.Place) (before after : Project) : Prop where
  root : after.root = before.root
  settings : after.settings = before.settings
  spares : Files.Disk.Spares place before.disk after.disk

namespace Beside

theorem refl (place : Files.Place) (project : Project) : Beside place project project :=
  ⟨rfl, rfl, .refl place project.disk⟩

theorem trans {first second third : Project} (early : Beside place first second)
    (late : Beside place second third) : Beside place first third :=
  ⟨late.root.trans early.root, late.settings.trans early.settings, early.spares.trans late.spares⟩

end Beside

/-- The place is not in the folder of the program. -/
def Outside (project : Project) (place : Files.Place) : Prop := ¬(toolFolder project.root).names <+: place

/-- What is beside the root is over the same folder and settings. -/
theorem outside_root (project : Project) : Outside project [] := by
  unfold Outside
  simp [toolFolder, Files.Path.child]

theorem Holds.beside (holds : Holds before path text) (clean : Files.Path.back ∉ path.names)
    (beside : Beside (before.disk.aim path) before after) : Holds after path text := by
  obtain ⟨bytes, encoding, read, named, decoded⟩ := holds
  exact ⟨bytes, encoding, beside.spares.read clean read, beside.settings ▸ named, decoded⟩

/-- What lies in a folder is on no way that leads past the folder. -/
theorem aside_child {folder : Files.Path} (aside : ¬folder.names <+: place) (name : String) :
    ¬(folder.child name).names <+: place :=
  fun inside => aside ((List.prefix_append _ _).trans inside)

/-- What lies in a folder of the program is on no way that leads outside. -/
theorem aside_of_outside (outside : Outside project place) (kind name : String) :
    ¬(((toolFolder project.root).child kind).child name).names <+: place :=
  aside_child (aside_child outside kind) name

/-- The place is not in the folder of the copies, if copies are made. -/
def OutsideCopies (project : Project) (place : Files.Place) : Prop :=
  project.settings.backups = true → ¬(backupsFolder project.root).names <+: place

theorem Outside.copies (outside : Outside project place) : OutsideCopies project place :=
  fun _ => aside_child outside _

theorem backUp_beside (path : Files.Path) (bytes : Text.Bytes) (project : Project) :
    ∃ copied after, project.perform (backUp path bytes) = (.ok copied, after) ∧
      ∀ place, ¬(backupsFolder project.root).names <+: place → Beside place project after := by
  unfold backUp
  rw [perform_bind_ok _ (perform_get _)]
  dsimp only
  split
  · exact ⟨false, project, rfl, fun place _ => .refl place project⟩
  · rename_i disk made
    have folders (place : Files.Place) : Files.Disk.Spares place project.disk disk := .of_makeFolders made
    split
    · exact ⟨false, _, perform_bind_ok _ (perform_set _ _), fun place _ => ⟨rfl, rfl, folders place⟩⟩
    · refine ⟨true, _, perform_bind_ok _ (perform_set _ _), fun place aside => ⟨rfl, rfl, ?_⟩⟩
      exact (folders place).trans (.of_write (aside_child aside _) bytes)

theorem record_beside (r : Record) (project : Project) :
    ∃ transaction after, project.perform (record r) = (.ok transaction, after) ∧
      ∀ place, Outside project place → Beside place project after := by
  unfold record
  rw [perform_bind_ok _ (perform_get _)]
  dsimp only
  split
  · exact ⟨none, project, rfl, fun place _ => .refl place project⟩
  · rename_i disk made
    refine ⟨_, _, perform_bind_ok _ (perform_set _ _), fun place outside => ⟨rfl, rfl, ?_⟩⟩
    exact (Files.Disk.Spares.of_makeFolders made).trans (.of_write (aside_of_outside outside _ _) _)

/-! ### Replacing a file -/

/-- The text has bytes in the encoding of the project. -/
def Encodable (project : Project) (text : List Char) : Prop :=
  ∃ encoding bytes, Files.Encoding.ofName? project.settings.encoding = some encoding ∧
    encoding.encode text = .ok bytes

theorem Encodable.beside (encodable : Encodable before text) (beside : Beside place before after) :
    Encodable after text := by
  unfold Encodable
  rw [beside.settings]
  exact encodable

theorem replaceFile_eq_ok_iff : project.perform (replaceFile path content) = (.ok (), after) ↔
    ∃ place encoding bytes, project.disk.locate path = .ok place ∧ lacksRoom path draftRoom = false ∧
      Files.Encoding.ofName? project.settings.encoding = some encoding ∧
      encoding.encode content = .ok bytes ∧
      after = { project with disk := project.disk.write place bytes } := by
  unfold replaceFile
  rw [perform_bind_ok _ (perform_get _)]
  cases project.disk.locate path with
  | error e => simp [lift]
  | ok place =>
    rw [lift, perform_bind_ok _ (perform_pure _ _)]
    dsimp only
    constructor
    · intro done
      obtain ⟨roomy, done⟩ := perform_guard_eq_ok project done
      split at done
      · cases done
      · rename_i encoding named
        split at done
        · rename_i bytes encoded
          simp only [perform_set, Prod.mk.injEq, true_and] at done
          exact ⟨place, encoding, bytes, rfl, by simpa using roomy, named, encoded, done.symm⟩
        · rw [perform_bind_ok _ (perform_set _ _)] at done
          cases done
    · rintro ⟨_, encoding, bytes, ⟨⟩, roomy, named, encoded, rfl⟩
      rw [if_neg (by simp [roomy])]
      simp only [named, encoded]
      exact perform_set _ _

/-! ### Writing a file -/

/-- No name of the path holds the character with the code zero. -/
def Plain (path : Files.Path) : Prop := ¬(path.names.any fun name => name.toList.contains '\x00') = true

theorem decode_run {bytes : Text.Bytes} {encoding : Files.Encoding}
    (named : Files.Encoding.ofName? project.settings.encoding = some encoding) :
    project.perform (decode bytes) = (.ok (encoding.decode bytes), project) := by
  unfold decode
  rw [perform_bind_ok _ (perform_get _)]
  simp only [named]
  exact perform_pure _ _

theorem readCurrent_run (plain : Plain path) (holds : Holds project path text) :
    ∃ bytes, project.perform (readCurrent path) = (.ok (bytes, text), project) := by
  obtain ⟨bytes, encoding, read, named, decoded⟩ := holds
  refine ⟨bytes, ?_⟩
  unfold readCurrent
  dsimp only
  rw [if_neg plain, perform_bind_ok _ (perform_get _)]
  simp only [read]
  rw [perform_bind_ok _ (decode_run named)]
  simp only [decoded]
  exact perform_pure _ _

/-- A file that holds what is expected of it, if something is, is made ready to be written. -/
theorem prepareWrite_runs (plain : Plain path) (holds : Holds project path text) {expected : Option (List Char)}
    (met : ∀ known, expected = some known → text = known) :
    ∃ copied after, project.perform (prepareWrite path expected) = (.ok (text, copied), after) ∧
      ∀ place, OutsideCopies project place → Beside place project after := by
  obtain ⟨bytes, read⟩ := readCurrent_run plain holds
  have copying : ∃ copied after, project.perform (get >>= fun project : Project =>
        if project.settings.backups then backUp path bytes >>= fun copied => pure (text, copied)
        else pure false >>= fun copied => pure (text, copied)) = (.ok (text, copied), after) ∧
      ∀ place, OutsideCopies project place → Beside place project after := by
    rw [perform_bind_ok _ (perform_get _)]
    split
    · rename_i wanted
      obtain ⟨copied, after, backed, same⟩ := backUp_beside path bytes project
      exact ⟨copied, after, perform_bind_ok _ backed, fun place aside => same place (aside wanted)⟩
    · exact ⟨false, project, rfl, fun place _ => .refl place project⟩
  unfold prepareWrite
  rw [perform_bind_ok _ read]
  cases expected with
  | none => exact copying
  | some known =>
    dsimp only
    rw [if_neg (not_not_intro (met known rfl))]
    exact copying

theorem prepareWrite_run (plain : Plain path) (holds : Holds project path text) :
    ∃ copied after, project.perform (prepareWrite path (some text)) = (.ok (text, copied), after) ∧
      ∀ place, Outside project place → Beside place project after := by
  obtain ⟨copied, after, prepared, beside⟩ := prepareWrite_runs plain holds (fun _ same => Option.some.inj same)
  exact ⟨copied, after, prepared, fun place outside => beside place outside.copies⟩

/-- A file that is written has a usable name. -/
theorem plain_of_write {copied : Bool}
    (done : project.perform (write path content (some known)) = (.ok (written, copied), after)) :
    Plain path := by
  unfold write at done
  obtain ⟨⟨current, copied'⟩, middle, prepared, -⟩ := perform_bind_eq_ok project done
  unfold prepareWrite at prepared
  obtain ⟨_, _, read, -⟩ := perform_bind_eq_ok project prepared
  exact (perform_guard_eq_ok project read).1

/-- The place of a file is not the root. -/
theorem aim_ne_nil (clean : Files.Path.back ∉ path.names) (holds : Holds project path text) :
    project.disk.aim path ≠ [] := by
  obtain ⟨bytes, _, read, -⟩ := holds
  obtain ⟨place, age, found, there⟩ := Files.Disk.read_eq_ok.mp read
  obtain rfl := Files.Disk.locate_clean clean found
  intro root
  rw [root] at there
  cases there

/-- The file of a path has the bytes of a text. -/
def Stores (project : Project) (path : Files.Path) (text : List Char) : Prop :=
  ∃ bytes encoding, project.disk.read path = .ok bytes ∧
    Files.Encoding.ofName? project.settings.encoding = some encoding ∧ encoding.encode text = .ok bytes

theorem Stores.holds (stores : Stores project path text) : Holds project path text := by
  obtain ⟨bytes, encoding, read, named, encoded⟩ := stores
  exact ⟨bytes, encoding, read, named, Files.Encoding.decode_encode encoded⟩

theorem Stores.beside (stores : Stores before path text) (clean : Files.Path.back ∉ path.names)
    (beside : Beside (before.disk.aim path) before after) : Stores after path text := by
  obtain ⟨bytes, encoding, read, named, encoded⟩ := stores
  exact ⟨bytes, encoding, beside.spares.read clean read, beside.settings ▸ named, encoded⟩

/-- What was written is stored. -/
theorem write_eq_ok_stores {copied : Bool} (clean : Files.Path.back ∉ path.names)
    (done : project.perform (write path content (some known)) = (.ok (written, copied), after)) :
    Stores after path written ∧ lacksRoom path draftRoom = false ∧ Beside [] project after := by
  obtain ⟨holds, rfl⟩ := write_eq_ok done
  -- The copy that may be made first is over the same folder, so the path leads to the same place.
  obtain ⟨copied', middle, prepared, beside⟩ := prepareWrite_run (plain_of_write done) holds
  have root := beside [] (outside_root project)
  unfold write at done
  rw [perform_bind_ok _ prepared] at done
  obtain ⟨_, last, replaced, done⟩ := perform_bind_eq_ok middle done
  cases done
  obtain ⟨place, encoding, bytes, found, roomy, named, encoded, rfl⟩ := replaceFile_eq_ok_iff.mp replaced
  have inner : place ≠ [] := by
    rw [Files.Disk.locate_clean clean found, Files.Disk.aim, root.spares.home]
    exact aim_ne_nil clean holds
  refine ⟨⟨bytes, encoding, Files.Disk.read_write clean found inner bytes, named, encoded⟩, roomy, root.trans ?_⟩
  refine ⟨rfl, rfl, .of_write ?_ bytes⟩
  simpa using inner

/-- A file that was written holds what was written. -/
theorem write_eq_ok_holds {copied : Bool} (clean : Files.Path.back ∉ path.names)
    (done : project.perform (write path content (some known)) = (.ok (written, copied), after)) :
    Holds after path written ∧ lacksRoom path draftRoom = false ∧ Beside [] project after := by
  obtain ⟨stores, roomy, beside⟩ := write_eq_ok_stores clean done
  exact ⟨stores.holds, roomy, beside⟩

/-- When a file can be written. -/
theorem write_runs (clean : Files.Path.back ∉ path.names) (plain : Plain path)
    (roomy : lacksRoom path draftRoom = false) (outside : Outside project (project.disk.aim path))
    (holds : Holds project path known)
    (encodable : Encodable project ((Text.LineBreak.ofText known).apply content)) :
    ∃ copied after, project.perform (write path content (some known)) =
      (.ok ((Text.LineBreak.ofText known).apply content, copied), after) := by
  obtain ⟨copied, middle, prepared, beside⟩ := prepareWrite_run plain holds
  have way := beside _ outside
  obtain ⟨encoding, bytes, named, encoded⟩ := encodable
  obtain ⟨_, _, read, -⟩ := holds
  obtain ⟨place, _, found, -⟩ := Files.Disk.read_eq_ok.mp (way.spares.read clean read)
  unfold write
  rw [perform_bind_ok _ prepared]
  have replaced := replaceFile_eq_ok_iff.mpr
    ⟨place, encoding, bytes, found, roomy, way.settings ▸ named, encoded, rfl⟩
  exact ⟨copied, _, perform_bind_ok _ replaced⟩

/-! ### Edits of sheets -/

/-- What opening a sheet comes to. -/
theorem openSheet_eq_ok {kept : Cached Sheet}
    (done : project.perform (openSheet file) = (.ok (path, kept), after)) :
    path = project.resolve file ∧ after = project ∧ Holds project path kept.text ∧
      kept.parsed = .ofChars kept.text := by
  unfold openSheet at done
  obtain ⟨-, done⟩ := perform_guard_eq_ok project done
  obtain ⟨-, done⟩ := perform_guard_eq_ok project done
  obtain ⟨⟨path', text⟩, middle, read, done⟩ := perform_bind_eq_ok project done
  obtain ⟨rfl, rfl, holds⟩ := readSource_eq_ok read
  cases done
  exact ⟨rfl, rfl, holds, rfl⟩

theorem readSource_run (done : project.perform (readSource file) = (.ok (path, known), before))
    (root : after.root = project.root) (holds : Holds after path text) :
    after.perform (readSource file) = (.ok (path, text), after) := by
  obtain ⟨rfl, -, -⟩ := readSource_eq_ok done
  have located : after.perform (locate file) = (.ok (project.resolve file), after) := by
    unfold readSource at done
    obtain ⟨_, _, located, -⟩ := perform_bind_eq_ok project done
    unfold locate at located ⊢
    rw [perform_bind_ok _ (perform_get _)] at located ⊢
    dsimp only at located ⊢
    obtain ⟨plain, located⟩ := perform_guard_eq_ok project located
    rw [if_neg plain, root]
    split at located
    · rename_i inside
      rw [if_pos inside]
      rfl
    · cases located
  obtain ⟨bytes, encoding, read, named, decoded⟩ := holds
  obtain ⟨place, age, found, there⟩ := Files.Disk.read_eq_ok.mp read
  have isFile : after.disk.isFile (project.resolve file) = .ok true := by
    unfold Files.Disk.isFile Files.Disk.find?
    rw [found]
    simp [there, Except.map]
  unfold readSource
  rw [perform_bind_ok _ located, perform_bind_ok _ (perform_get _)]
  simp only [isFile]
  rw [lift, perform_bind_ok _ (perform_pure _ _), if_neg (by simp)]
  simp only [read]
  rw [perform_bind_ok _ (decode_run named)]
  simp only [decoded]
  exact perform_pure _ _

/-- A sheet that was opened is opened again, as the text that its file holds by then. -/
theorem openSheet_run {kept : Cached Sheet}
    (done : project.perform (openSheet file) = (.ok (path, kept), before)) (root : after.root = project.root)
    (holds : Holds after path text) :
    after.perform (openSheet file) = (.ok (path, ⟨text, .ofChars text⟩), after) := by
  unfold openSheet at done ⊢
  obtain ⟨named, done⟩ := perform_guard_eq_ok project done
  obtain ⟨styled, done⟩ := perform_guard_eq_ok project done
  obtain ⟨⟨path', text'⟩, middle, read, done⟩ := perform_bind_eq_ok project done
  cases done
  rw [if_neg named, if_neg styled, perform_bind_ok _ (readSource_run read root holds)]
  rfl

theorem commit_run {copied : Bool} (file : String) (parsed : α) (keep : Cached α → Cache → Cache)
    (kind : TransformKind) (requestId : String) (metadata : Json.Members)
    (done : project.perform (write path content (some known)) = (.ok (written, copied), after)) :
    ∃ edited last,
      project.perform (commit file path known content parsed keep kind requestId metadata) = (.ok edited, last) ∧
        edited.content = written ∧ last.cache = keep ⟨written, parsed⟩ after.cache ∧
        ∀ place, Outside after place → Beside place after last := by
  unfold commit
  rw [perform_bind_ok _ done]
  dsimp only
  rw [perform_bind_ok _ (perform_modifyCache _ _), perform_bind_ok _ (perform_get _)]
  dsimp only
  split
  · obtain ⟨transaction, last, recorded, beside⟩ := record_beside
      { kind := kind.name, requestId, patches := [Patch.members ⟨path, known⟩], metadata }
      { after with cache := keep ⟨written, parsed⟩ after.cache }
    have cache := (blind_record _).cache_of recorded
    refine ⟨_, last, perform_bind_ok _ recorded, rfl, cache, fun place outside => ?_⟩
    have kept : Beside place after { after with cache := keep ⟨written, parsed⟩ after.cache } :=
      ⟨rfl, rfl, .refl _ _⟩
    exact kept.trans (beside place outside)
  · exact ⟨_, _, perform_bind_ok _ (perform_pure _ _), rfl, rfl, fun place _ => ⟨rfl, rfl, .refl _ _⟩⟩

variable {target : SourceLocator} {kind : TransformKind} {requestId selector : String} {edit : SheetEdit}
  {kept : Cached Sheet} {sheet : Sheet} {previous : Option Style.Value} {copied : Bool}

/-- A write does the same with another cache. -/
theorem write_with_cache (cache : Cache)
    (done : project.perform (write path content (some known)) = (.ok (written, copied), after)) :
    ({ project with cache } : Project).perform (write path content (some known)) =
      (.ok (written, copied), { after with cache }) := by
  rw [blind_write, done]

theorem write_of_cache {cache : Cache}
    (done : ({ project with cache } : Project).perform (write path content (some known)) =
      (.ok (written, copied), after)) :
    project.perform (write path content (some known)) =
      (.ok (written, copied), { after with cache := project.cache }) :=
  have same := write_with_cache project.cache done
  same

/-- The edit of a sheet that was loaded is made when the declaration can be edited, no error comes into the
sheet, and its file can be written. -/
theorem editSheet_of_load {cache : Cache} (kind : TransformKind) (requestId : String)
    (chosen : target.selectors.getLast? = some selector)
    (load : project.perform (loadSheet target.styleFile) = (.ok (path, kept), { project with cache }))
    (edited : edit kept.parsed selector = ⟨sheet, .ok previous⟩)
    (sound : sheet.hasError = true → kept.parsed.hasError = true)
    (wrote : project.perform (write path sheet.source (some kept.text)) = (.ok (written, copied), after)) :
    ∃ done last, project.perform (editSheet target kind requestId edit) = (.ok done, last) ∧
      done.previous = previous ∧ last.cache = keepSheet path ⟨written, sheet⟩ cache ∧
      ∀ place, Outside after place → Beside place after last := by
  -- While the edit is under way, the changed sheet is kept under the old text.
  have wrote' := write_with_cache (keepSheet path ⟨kept.text, sheet⟩ cache) wrote
  obtain ⟨done, last, committed, -, lastCache, beside⟩ := commit_run target.styleFile sheet
    (keepSheet path) kind requestId [("selector", .str selector)] wrote'
  have checked (middle : Project) : middle.perform (requireSound kept.parsed.hasError sheet.hasError
      target.styleFile) = (.ok (), middle) := by
    unfold requireSound
    rw [if_neg]
    · rfl
    · simpa using sound
  have once : last.cache = keepSheet path ⟨written, sheet⟩ cache := by
    rw [lastCache]
    simp [keepSheet, Table.put_put]
  refine ⟨{ done with previous }, last, ?_, rfl, once, fun place outside => ?_⟩
  rotate_left
  · have same := beside place outside
    exact ⟨same.root, same.settings, same.spares⟩
  unfold editSheet targetSelector
  rw [chosen]
  dsimp only
  rw [perform_bind_ok _ (perform_pure _ _), perform_bind_ok _ load]
  dsimp only
  rw [edited, perform_try, perform_bind_ok _ (perform_modifyCache _ _)]
  dsimp only [ofOutcome]
  rw [perform_bind_ok _ (perform_pure _ _), perform_bind_ok _ (checked _), perform_bind_ok _ committed]
  rfl

/-- So is the edit of a sheet that was opened, from a faithful cache. -/
theorem editSheet_run (faithful : Faithful project.cache) (kind : TransformKind) (requestId : String)
    (chosen : target.selectors.getLast? = some selector)
    (opened : project.perform (openSheet target.styleFile) = (.ok (path, kept), project))
    (edited : edit kept.parsed selector = ⟨sheet, .ok previous⟩)
    (sound : sheet.hasError = true → kept.parsed.hasError = true)
    (wrote : project.perform (write path sheet.source (some kept.text)) = (.ok (written, copied), after)) :
    ∃ done last cache, project.perform (editSheet target kind requestId edit) = (.ok done, last) ∧
      done.previous = previous ∧ Faithful cache ∧ last.cache = keepSheet path ⟨written, sheet⟩ cache ∧
      ∀ place, Outside after place → Beside place after last := by
  obtain ⟨cache, result, opened', loaded, openedTwice, load⟩ := loadSheet_faithful faithful target.styleFile
  rw [opened] at openedTwice
  cases openedTwice
  obtain ⟨done, last, made, same, once, beside⟩ := editSheet_of_load kind requestId chosen load edited sound wrote
  exact ⟨done, last, cache, made, same, loaded, once, beside⟩

theorem ofOutcome_eq_ok {outcome : Sheet.Outcome α} {a : α}
    (done : project.perform (ofOutcome outcome) = (.ok a, after)) :
    outcome = ⟨outcome.sheet, .ok a⟩ ∧ after = project := by
  obtain ⟨sheet, result⟩ := outcome
  unfold ofOutcome at done
  split at done
  · rename_i found
    cases found
    cases done
    exact ⟨rfl, rfl⟩
  · cases done
  · cases done

theorem requireSound_eq_ok {sound sound' : Bool}
    (done : project.perform (requireSound sound sound' file) = (.ok (), after)) :
    (sound' = true → sound = true) ∧ after = project := by
  unfold requireSound at done
  split at done
  · cases done
  · rename_i fine
    cases done
    exact ⟨by simpa using fine, rfl⟩

/-- What an edit of a sheet that was loaded came to. -/
theorem editSheet_eq_ok_of_load {cache : Cache} {done : Edited}
    (load : project.perform (loadSheet target.styleFile) = (.ok (path, kept), { project with cache }))
    (made : project.perform (editSheet target kind requestId edit) = (.ok done, after)) :
    ∃ selector sheet previous written copied middle, target.selectors.getLast? = some selector ∧
      edit kept.parsed selector = ⟨sheet, .ok previous⟩ ∧
      (sheet.hasError = true → kept.parsed.hasError = true) ∧
      project.perform (write path sheet.source (some kept.text)) = (.ok (written, copied), middle) := by
  unfold editSheet targetSelector at made
  cases chosen : target.selectors.getLast? with
  | none =>
    rw [chosen] at made
    cases made
  | some selector =>
    rw [chosen] at made
    dsimp only at made
    rw [perform_bind_ok _ (perform_pure _ _), perform_bind_ok _ load] at made
    dsimp only at made
    rw [perform_try, perform_bind_ok _ (perform_modifyCache _ _)] at made
    split at made
    · -- The parts of the attempt, one after the other.
      rename_i tried
      obtain ⟨previous, middle, first, tried⟩ := perform_bind_eq_ok _ tried
      obtain ⟨edited, rfl⟩ := ofOutcome_eq_ok first
      obtain ⟨_, middle, second, tried⟩ := perform_bind_eq_ok _ tried
      obtain ⟨sound, rfl⟩ := requireSound_eq_ok second
      obtain ⟨_, _, third, -⟩ := perform_bind_eq_ok _ tried
      unfold commit at third
      obtain ⟨⟨written, copied⟩, last, wrote, -⟩ := perform_bind_eq_ok _ third
      exact ⟨selector, _, previous, written, copied, _, rfl, edited, sound, write_of_cache wrote⟩
    · -- a refusal is handed on
      rename_i e last tried
      split at made
      · rw [if_pos rfl, perform_bind_ok _ (perform_modifyCache _ _)] at made
        cases made
      · cases made

/-- An edit that was made has loaded its sheet. -/
theorem load_of_editSheet {done : Edited}
    (made : project.perform (editSheet target kind requestId edit) = (.ok done, after)) :
    ∃ found middle, project.perform (loadSheet target.styleFile) = (.ok found, middle) := by
  unfold editSheet at made
  obtain ⟨selector, _, chosen, made⟩ := perform_bind_eq_ok _ made
  unfold targetSelector at chosen
  split at chosen
  · cases chosen
    obtain ⟨found, middle, load, -⟩ := perform_bind_eq_ok _ made
    exact ⟨found, middle, load⟩
  · cases chosen

/-- What an edit of a sheet that was made came to. -/
theorem editSheet_eq_ok (faithful : Faithful project.cache) {done : Edited}
    (made : project.perform (editSheet target kind requestId edit) = (.ok done, after)) :
    ∃ selector path kept sheet previous written copied middle, target.selectors.getLast? = some selector ∧
      project.perform (openSheet target.styleFile) = (.ok (path, kept), project) ∧
      edit kept.parsed selector = ⟨sheet, .ok previous⟩ ∧
      (sheet.hasError = true → kept.parsed.hasError = true) ∧
      project.perform (write path sheet.source (some kept.text)) = (.ok (written, copied), middle) := by
  obtain ⟨cache, result, opened', -, opened, load⟩ := loadSheet_faithful faithful target.styleFile
  obtain ⟨⟨path, kept⟩, middle, load'⟩ := load_of_editSheet made
  obtain rfl : result = .ok (path, kept) := congrArg Prod.fst (load.symm.trans load')
  obtain ⟨-, rfl, -⟩ := openSheet_eq_ok opened
  obtain ⟨selector, sheet, previous, written, copied, middle, chosen, edited, sound, wrote⟩ :=
    editSheet_eq_ok_of_load load made
  exact ⟨selector, path, kept, sheet, previous, written, copied, middle, chosen, opened, edited, sound, wrote⟩

end Retouch.Project
