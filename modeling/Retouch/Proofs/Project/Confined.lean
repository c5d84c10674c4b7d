import Retouch.Proofs.Files.Folders
import Retouch.Proofs.Project.Failure
import Retouch.Proofs.Project.Frame
import Retouch.Proofs.Project.Records
import Retouch.Proofs.Project.Undo

/-!
# Where an edit writes

An edit writes the file that it is about, drafts of it next to it, and what it keeps in the folders of copies and of
records; all of that lies in the folder of the project. The path of the file is resolved first, steps back included;
when it leads out of the project, the edit ends at once, whatever the project holds.

## Main statements

* `Frame.edit_at` and `Frame.undo`: an edit, and undoing one, keep to a relation when what they write does.
* `confined_edit`: an edit changes no other places.
* `barred_edit`: the edit of a file outside the project is refused without a look at the disk.
-/
namespace Retouch.Project

variable {α β : Type} {R : Project → Project → Prop} {project : Project} {root path : Files.Path} {place : Files.Place}
  {file : String} {e : ProjectError}

/-! ### What keeps to a relation when writing does -/

/-- What is written for an edit of the file of a path keeps to the relation. -/
structure Keeping (R : Project → Project → Prop) (path : Files.Path) : Prop where
  copies : ∀ bytes, Within R (backUp path bytes)
  replaces : ∀ content, Within R (replaceFile path content)
  records : ∀ r, Within R (record r)

theorem targetSelector_eq_ok {target : SourceLocator} {selector : String} {after : Project}
    (chosen : project.perform (targetSelector target) = (.ok selector, after)) : project = after := by
  unfold targetSelector at chosen
  split at chosen
  · cases chosen
    rfl
  · cases chosen

namespace Frame

/-- What follows on what an action gives has to keep to the relation only where the action leads. -/
theorem bind_from (frame : Frame R) {first : Action α} {next : α → Action β} (early : Within R first)
    (late : ∀ a after, project.perform first = (.ok a, after) → R after (after.perform (next a)).2) :
    R project (project.perform (first >>= next)).2 := by
  rw [perform_bind]
  rcases outcome : project.perform first with ⟨e | a, middle⟩
  · exact early.related outcome
  · exact frame.trans (early.related outcome) (late a middle outcome)

theorem write (frame : Frame R) (keeping : Keeping R path) (content : List Char) (expected : Option (List Char)) :
    Within R (write path content expected) := by
  unfold Project.write
  refine frame.bind (frame.prepareWrite keeping.copies expected) fun (current, copied) => ?_
  exact frame.bind (keeping.replaces _) fun _ => frame.pure _

theorem commit (frame : Frame R) (keeping : Keeping R path) (file : String) (before content : List Char) (parsed : α)
    (keep : Cached α → Cache → Cache) (kind : TransformKind) (requestId : String) (metadata : Json.Members) :
    Within R (commit file path before content parsed keep kind requestId metadata) := by
  unfold Project.commit
  refine frame.bind (frame.write keeping content (some before)) fun written => ?_
  refine frame.bind (frame.modifyCache _) fun _ => frame.bind frame.get fun project => ?_
  split
  · exact frame.bind (keeping.records _) fun _ => frame.pure _
  · exact frame.bind (frame.pure _) fun _ => frame.pure _

theorem updateText_at (frame : Frame R) {target : SourceLocator}
    (keeping : ∀ text, Holds project (project.resolve target.file) text → Keeping R (project.resolve target.file))
    (prior new requestId : String) : R project (project.perform (updateText target prior new requestId)).2 := by
  unfold Project.updateText
  -- What was loaded shows that there is a file, without which nothing has to be known about writing.
  refine frame.bind_from (frame.loadDocument _) fun (path, kept) after loaded => ?_
  obtain ⟨_, _, rfl, holds, _⟩ := loadDocument_eq_ok loaded
  refine frame.bind_at (frame.lift _ _ after) fun updated => frame.bind (frame.requireSound _ _ _) fun _ => ?_
  exact frame.commit (keeping _ holds) _ _ _ _ _ _ _ _

theorem editSheet_at (frame : Frame R) {target : SourceLocator}
    (keeping : ∀ text, Holds project (project.resolve target.styleFile) text →
      Keeping R (project.resolve target.styleFile))
    (kind : TransformKind) (requestId : String) (edit : SheetEdit) :
    R project (project.perform (editSheet target kind requestId edit)).2 := by
  unfold Project.editSheet
  refine frame.bind_from (frame.targetSelector _) fun selector after selected => ?_
  obtain rfl := targetSelector_eq_ok selected
  refine frame.bind_from (frame.loadSheet _) fun (path, kept) after loaded => ?_
  obtain ⟨rfl, holds, -⟩ := loadSheet_eq_ok loaded
  refine frame.try_at (frame.bind_at (frame.modifyCache _ after) fun _ => ?_) fun e =>
    frame.guard (frame.modifyCache _) (frame.throw _)
  refine frame.bind (frame.ofOutcome _) fun previous => frame.bind (frame.requireSound _ _ _) fun _ => ?_
  exact frame.bind (frame.commit (keeping _ holds) _ _ _ _ _ _ _ _) fun _ => frame.pure _

/-- An edit keeps to the relation when what is written for its file does, if there is such a file. -/
theorem edit_at (frame : Frame R) {request : Request}
    (keeping : ∀ text, Holds project (project.resolve (editedFile request)) text →
      Keeping R (project.resolve (editedFile request))) : R project (project.perform (edit request)).2 := by
  unfold editedFile at keeping
  unfold edit
  cases change : request.change with
  | textUpdate prior new =>
    rw [change] at keeping
    exact frame.updateText_at keeping _ _ _
  | _ =>
    rw [change] at keeping
    exact frame.editSheet_at keeping _ _ _

/-! ### Undoing -/

theorem applyPatch (frame : Frame R) (keeping : ∀ path, Keeping R path) (file content : Json) :
    Within R (applyPatch file content) := by
  unfold Project.applyPatch
  split
  · refine fun project => frame.try_at ?_ fun e => ?_
    · split
      · exact frame.bind (frame.write (keeping _) _ _) (fun _ => frame.pure _) project
      · exact frame.bind (frame.prepareWrite (keeping _).copies _) (fun _ => frame.throw _) project
    · split
      · exact frame.pure _
      · exact frame.throw _
  · exact frame.throw _

theorem applyPatches (frame : Frame R) (keeping : ∀ path, Keeping R path) (patches : List Json) :
    ∀ done, Within R (applyPatches patches done) := by
  have choice {reason : Prop} [Decidable reason] {bad good : Action Undone} (stopped : Within R bad)
      (tried : Within R good) : Within R (if reason then bad else good) := by
    split
    · exact stopped
    · exact tried
  induction patches with
  | nil => exact fun done => frame.pure done
  | cons patch rest ih =>
    intro done
    cases patch with
    | obj members =>
      unfold Project.applyPatches
      dsimp only
      refine choice (ih _) (frame.bind (frame.applyPatch keeping _ _) fun error => ?_)
      cases error <;> exact ih _
    | _ => exact frame.throw _

theorem forget (frame : Frame R) (names : List String) : Within R (forget names) := by
  induction names with
  | nil => exact frame.pure ()
  | cons name rest ih => exact frame.bind frame.get fun _ => frame.bind (frame.modifyCache _) fun _ => ih

/-- Undoing a transform keeps to the relation when all that is written does. -/
theorem undo (frame : Frame R) (keeping : ∀ path, Keeping R path) (id : String) : Within R (undo id) := by
  unfold Project.undo
  refine frame.bind (frame.transaction? id) fun found => ?_
  split
  · exact frame.pure _
  · refine frame.bind (frame.lift _ _) fun patches => frame.bind (frame.applyPatches keeping _ _) fun done => ?_
    exact frame.bind (frame.forget _) fun _ => frame.pure _

end Frame

/-! ### Places that may be written -/

/-- The places that an edit of the file of a path may write: the file itself, drafts of it next to it, copies of it and
records. -/
inductive Writes (root path : Files.Path) : Files.Place → Prop
  | target : Writes root path path.names
  | draft (number : Nat) : Writes root path (path.names.dropLast ++ [draftName path number])
  | copy (number : Nat) : Writes root path ((backupsFolder root).child (backupName path number)).names
  | record (number : Nat) : Writes root path ((historyFolder root).child (transactionId number ++ recordSuffix)).names

/-- The folders that an edit may make: those on the way to the copies and to the records. -/
def Makes (root : Files.Path) (place : Files.Place) : Prop :=
  place <+: (backupsFolder root).names ∨ place <+: (historyFolder root).names

/-- What a place holds is as it was, or a folder that may be made where nothing was, or a file that may be written. -/
inductive Affects (root path : Files.Path) (before after : Files.Disk) (place : Files.Place) : Prop
  | kept (same : after.node? place = before.node? place)
  | made (makes : Makes root place) (free : before.node? place = none) (folder : after.node? place = some .folder)
  | written (writes : Writes root path place) (f : Files.File) (file : after.node? place = some (.file f))

/-- What an edit of the file of a path may do to a project. -/
structure Confined (path : Files.Path) (before after : Project) : Prop where
  root : after.root = before.root
  places : ∀ place, Affects before.root path before.disk after.disk place

theorem Affects.trans {first second third : Files.Disk} (early : Affects root path first second place)
    (late : Affects root path second third place) : Affects root path first third place := by
  cases late with
  | written writes f file => exact .written writes f file
  | kept same =>
    cases early with
    | kept same' => exact .kept (same.trans same')
    | made makes free folder => exact .made makes free (same.trans folder)
    | written writes f file => exact .written writes f (same.trans file)
  | made makes free folder =>
    -- Where nothing was in between, nothing was written or made before.
    cases early with
    | kept same => exact .made makes (same.symm.trans free) folder
    | made _ _ folder' => cases folder'.symm.trans free
    | written _ _ file => cases file.symm.trans free

theorem frame_confined (path : Files.Path) : Frame (Confined path) where
  cache _ _ := ⟨rfl, fun _ => .kept rfl⟩
  trans early late := by
    refine ⟨late.root.trans early.root, fun place => (early.places place).trans ?_⟩
    exact early.root ▸ late.places place

/-! ### What is written -/

theorem confined_write (project : Project) (writes : Writes project.root path place) (bytes : Text.Bytes) :
    Confined path project { project with disk := project.disk.write place bytes } := by
  refine ⟨rfl, fun other => ?_⟩
  by_cases inner : place = []
  · -- The root of the disk is always a folder.
    subst inner
    refine .kept ?_
    by_cases outer : other = []
    · simp [outer, Files.Disk.node?]
    · simp [outer, Ne.symm outer, Files.Disk.node?, Files.Disk.write, Table.get?_put]
  · have written := Files.Disk.node?_write project.disk place other bytes inner
    by_cases here : place = other
    · exact .written (here ▸ writes) _ (written.trans (if_pos here))
    · exact .kept (written.trans (if_neg here))

theorem confined_makeFolders {folder : Files.Path} {disk : Files.Disk}
    (makes : ∀ place, place <+: folder.names → Makes project.root place)
    (made : project.disk.makeFolders folder = .ok disk) : Confined path project { project with disk } := by
  refine ⟨rfl, fun place => ?_⟩
  rcases Files.Disk.node?_makeFolders made place with same | ⟨free, there⟩
  · exact .kept same
  · rcases Files.Disk.along_of_makeFolders made place with same | along
    · exact .kept same
    · exact .made (makes place along) free there

theorem confined_backUp (path : Files.Path) (bytes : Text.Bytes) : Within (Confined path) (backUp path bytes) := by
  intro project
  unfold backUp
  rw [perform_bind_ok _ (perform_get _)]
  dsimp only
  split
  · exact (frame_confined path).refl project
  · rename_i disk made
    have folders : Confined path project { project with disk } := confined_makeFolders (fun _ along => .inl along) made
    split
    · exact folders
    · refine (frame_confined path).trans folders ?_
      exact confined_write { project with disk } (.copy disk.writes) bytes

theorem confined_record (path : Files.Path) (r : Record) : Within (Confined path) (record r) := by
  intro project
  unfold record
  rw [perform_bind_ok _ (perform_get _)]
  dsimp only
  split
  · exact (frame_confined path).refl project
  · rename_i disk made
    have folders : Confined path project { project with disk } := confined_makeFolders (fun _ along => .inr along) made
    have written : Confined path _ _ := confined_write { project with disk } (.record (project.recorded + 1))
      (Text.Utf8.encode ((r.toJson project.now).writeIndented 0).toList)
    exact ⟨rfl, ((frame_confined path).trans folders written).places⟩

theorem confined_replaceFile (absolute : path.absolute = true) (clean : Files.Path.back ∉ path.names)
    (content : List Char) : Within (Confined path) (replaceFile path content) := by
  intro project
  unfold replaceFile
  rw [perform_bind_ok _ (perform_get _)]
  cases found : project.disk.locate path with
  | error fault => exact (frame_confined path).refl project
  | ok place =>
    obtain rfl : place = path.names := by
      rw [Files.Disk.locate_clean clean found, Files.Disk.aim, absolute]
      rfl
    rw [lift, perform_bind_ok _ (perform_pure _ _)]
    dsimp only
    split
    · exact (frame_confined path).refl project
    · split
      · exact (frame_confined path).refl project
      · split
        · exact confined_write project .target _
        · exact confined_write project (.draft _) []

theorem keeping_confined (absolute : path.absolute = true) (clean : Files.Path.back ∉ path.names) :
    Keeping (Confined path) path where
  copies := confined_backUp path
  replaces := confined_replaceFile absolute clean
  records := confined_record path

/-- An edit writes the places of its file only, and makes no folders but those of the program. -/
theorem confined_edit (absolute : project.root.absolute = true) (request : Request) :
    Confined (project.resolve (editedFile request)) project (project.perform (edit request)).2 :=
  (frame_confined _).edit_at fun _ _ => keeping_confined (absolute_resolve absolute _) (clean_resolve project _)

/-! ### Inside the project -/

/-- The folder of the project is there, with all the folders around it. -/
def Standing (project : Project) : Prop :=
  ∀ place, place <+: project.root.names → project.disk.node? place = some .folder

instance (project : Project) : Decidable (Standing project) :=
  decidable_of_iff (∀ place ∈ project.root.names.inits, project.disk.node? place = some .folder)
    (by simp only [List.mem_inits, Standing])

theorem Seated.child {name : String} (seated : Seated root) (named : Files.Path.Name name)
    (forward : name ≠ Files.Path.back) : Seated (root.child name) := by
  refine ⟨⟨seated.proper.absolute, fun other member => ?_⟩, fun member => ?_⟩
  · rcases List.mem_append.mp member with outer | last
    · exact seated.proper.names other outer
    · exact List.mem_singleton.mp last ▸ named
  · rcases List.mem_append.mp member with outer | last
    · exact seated.clean outer
    · exact forward (List.mem_singleton.mp last).symm

/-- The names of some part of a path. -/
theorem Seated.part (seated : Seated root) {names : List String} (part : names ⊆ root.names) :
    Seated ⟨true, names⟩ :=
  ⟨⟨rfl, fun name member => seated.proper.names name (part member)⟩, fun member => seated.clean (part member)⟩

theorem seated_resolve (seated : Seated project.root) (file : String) : Seated (project.resolve file) :=
  ⟨(seated.proper.join file).normal, clean_resolve project file⟩

theorem seated_backups (seated : Seated root) : Seated (backupsFolder root) :=
  (seated.child ⟨by decide, by decide, by decide⟩ (by decide)).child ⟨by decide, by decide, by decide⟩ (by decide)

theorem seated_history (seated : Seated root) : Seated (historyFolder root) :=
  (seated.child ⟨by decide, by decide, by decide⟩ (by decide)).child ⟨by decide, by decide, by decide⟩ (by decide)

theorem lastName_whole (seated : Seated path) : '/' ∉ path.lastName.toList := by
  unfold Files.Path.lastName
  rw [List.getLastD_eq_getLast?]
  cases last : path.names.getLast? with
  | none => exact List.not_mem_nil
  | some name => exact (seated.proper.names name (List.mem_of_getLast? last)).whole

/-- A name without slashes that ends in a longer text leads on. -/
theorem name_of_suffix {name : String} (suffix : List Char) (whole : '/' ∉ name.toList)
    (ends : suffix <:+ name.toList) (long : 2 < suffix.length) : Files.Path.Name name ∧ name ≠ Files.Path.back := by
  have length := ends.length_le
  refine ⟨⟨fun empty => ?_, fun dot => ?_, whole⟩, ?_⟩
  · rw [empty, List.length_nil] at length
    omega
  · rw [dot, List.length_singleton] at length
    omega
  · rintro rfl
    have short : Files.Path.back.toList.length = 2 := by decide
    omega

theorem name_draft (seated : Seated path) (number : Nat) :
    Files.Path.Name (draftName path number) ∧ draftName path number ≠ Files.Path.back := by
  refine name_of_suffix ".tmp".toList ?_ ?_ (by decide)
  · unfold draftName
    simp only [String.toList_append, List.mem_append, not_or]
    exact ⟨⟨⟨⟨by decide, lastName_whole seated⟩, by decide⟩, slash_not_mem_number number⟩, by decide⟩
  · unfold draftName
    rw [String.toList_append]
    exact List.suffix_append _ _

theorem name_backup (seated : Seated path) (number : Nat) :
    Files.Path.Name (backupName path number) ∧ backupName path number ≠ Files.Path.back := by
  refine name_of_suffix ".backup".toList ?_ ?_ (by decide)
  · unfold backupName
    simp only [String.toList_append, List.mem_append, not_or]
    exact ⟨⟨⟨lastName_whole seated, by decide⟩, slash_not_mem_number number⟩, by decide⟩
  · unfold backupName
    rw [String.toList_append]
    exact List.suffix_append _ _

theorem name_record (number : Nat) : transactionId number ++ recordSuffix ≠ Files.Path.back := by
  refine (name_of_suffix recordSuffix.toList (name_recordFile number).whole ?_ (by decide)).2
  rw [String.toList_append]
  exact List.suffix_append _ _

/-- What is written has a path in normal form. -/
theorem Writes.seated (writes : Writes root path place) (rooted : Seated root) (seated : Seated path) :
    Seated ⟨true, place⟩ := by
  cases writes with
  | target => exact seated.part (List.Subset.refl _)
  | draft number =>
    have folder : Seated ⟨true, path.names.dropLast⟩ := seated.part (List.dropLast_subset _)
    exact folder.child (name_draft seated number).1 (name_draft seated number).2
  | copy number =>
    exact ((seated_backups rooted).child (name_backup seated number).1 (name_backup seated number).2).part
      (List.Subset.refl _)
  | record number =>
    exact ((seated_history rooted).child (name_recordFile number) (name_record number)).part (List.Subset.refl _)

theorem Makes.seated (makes : Makes root place) (rooted : Seated root) : Seated ⟨true, place⟩ := by
  rcases makes with inside | inside
  · exact (seated_backups rooted).part inside.subset
  · exact (seated_history rooted).part inside.subset

/-- What is written for a file in a folder lies in the folder. -/
theorem Writes.inside (writes : Writes root path place) (inside : root.names <+: path.names)
    (inner : path.names ≠ root.names) : root.names <+: place := by
  cases writes with
  | target => exact inside
  | draft number =>
    -- A file in the folder has at least one more name, so that its own folder is still inside.
    obtain ⟨rest, split⟩ := inside
    have more : rest ≠ [] := by
      rintro rfl
      exact inner (by simpa using split.symm)
    rw [← split, List.dropLast_append_of_ne_nil more, List.append_assoc]
    exact List.prefix_append _ _
  | copy number => simp [backupsFolder, toolFolder, Files.Path.child]
  | record number => simp [historyFolder, toolFolder, Files.Path.child]

theorem Makes.inside (makes : Makes root place) (inner : ¬place <+: root.names) : root.names <+: place := by
  have within : root.names <+: (backupsFolder root).names ∧ root.names <+: (historyFolder root).names := by
    simp [backupsFolder, historyFolder, toolFolder, Files.Path.child]
  rcases makes with along | along
  · exact (List.prefix_or_prefix_of_prefix along within.1).resolve_left inner
  · exact (List.prefix_or_prefix_of_prefix along within.2).resolve_left inner

/-- Projects over one folder and disk. -/
structure SameFiles (before after : Project) : Prop where
  root : after.root = before.root
  disk : after.disk = before.disk

theorem frame_sameFiles : Frame SameFiles where
  cache _ _ := ⟨rfl, rfl⟩
  trans early late := ⟨late.root.trans early.root, late.disk.trans early.disk⟩

/-- An edit of what is no file changes no file. -/
theorem sameFiles_edit {request : Request} (missing : ∀ text, ¬Holds project (project.resolve (editedFile request)) text) :
    SameFiles project (project.perform (edit request)).2 :=
  frame_sameFiles.edit_at fun text holds => absurd holds (missing text)

/-- A folder holds no text. -/
theorem not_holds_folder {text : List Char} (absolute : path.absolute = true) (clean : Files.Path.back ∉ path.names)
    (folder : project.disk.node? path.names = some .folder) : ¬Holds project path text := by
  rintro ⟨bytes, _, read, -⟩
  obtain ⟨-, -, age, there⟩ := (Files.Disk.read_eq_ok_iff absolute clean).mp read
  rw [folder] at there
  cases there

/-- In a project that is there, what an edit writes or makes for a file in the project lies in the project, at a path
in normal form. -/
theorem inside_edit (seated : Seated project.root) (standing : Standing project) {request : Request}
    (inside : project.root.names <+: (project.resolve (editedFile request)).names)
    (changed : (project.perform (edit request)).2.disk.node? place ≠ project.disk.node? place) :
    project.root.names <+: place ∧ Seated ⟨true, place⟩ := by
  have resolved := seated_resolve seated (editedFile request)
  -- The path of the project itself is that of a folder, and what is no file is not edited.
  have inner : (project.resolve (editedFile request)).names ≠ project.root.names := by
    intro same
    have folder := standing _ List.prefix_rfl
    rw [← same] at folder
    have missing (text : List Char) : ¬Holds project (project.resolve (editedFile request)) text :=
      not_holds_folder resolved.proper.absolute resolved.clean folder
    exact changed (by rw [(sameFiles_edit missing).disk])
  cases (confined_edit seated.proper.absolute request).places place with
  | kept same => exact absurd same changed
  | made makes free folder =>
    refine ⟨makes.inside fun outer => ?_, makes.seated seated⟩
    rw [standing place outer] at free
    cases free
  | written writes f file => exact ⟨writes.inside inside inner, writes.seated seated resolved⟩

/-! ### The folder of the project -/

/-- Projects over one folder. -/
def SameRoot (before after : Project) : Prop := after.root = before.root

theorem frame_sameRoot : Frame SameRoot where
  cache _ _ := rfl
  trans early late := late.trans early

theorem keeping_sameRoot (path : Files.Path) : Keeping SameRoot path where
  copies bytes project := (confined_backUp path bytes project).root
  replaces content project := by
    unfold replaceFile
    rw [perform_bind_ok _ (perform_get _)]
    cases project.disk.locate path with
    | error fault => exact frame_sameRoot.refl project
    | ok place =>
      rw [lift, perform_bind_ok _ (perform_pure _ _)]
      dsimp only
      split
      · exact frame_sameRoot.refl project
      · split
        · exact frame_sameRoot.refl project
        · split <;> rfl
  records r project := (confined_record path r project).root

/-! ### Files outside the project -/

/-- In every project over the folder, whatever it holds, the action ends with the error and changes nothing. -/
def Bars (root : Files.Path) (e : ProjectError) (action : Action α) : Prop :=
  ∀ project : Project, project.root = root → project.perform action = (.error e, project)

theorem Bars.bind {first : Action α} (bars : Bars root e first) (next : α → Action β) : Bars root e (first >>= next) :=
  fun project same => perform_bind_error project (bars project same)

theorem bars_throw (e : ProjectError) : Bars root e (throw e : Action α) := fun _ _ => rfl

/-- The error for a file outside the project. -/
def outsideError (file : String) : ProjectError :=
  if file.toList.contains '\x00' then .nulInPath
  else .refused ⟨.validationError, "Path '" ++ file ++ "' is outside the project directory", naming file⟩

/-- The file's path leads out of the folder. -/
def Escapes (root : Files.Path) (file : String) : Prop :=
  ¬root.names <+: (root.join (.ofText file)).normal.names

instance (root : Files.Path) (file : String) : Decidable (Escapes root file) := inferInstanceAs (Decidable ¬_)

/-- A path that can be followed on the disk as it was given, step by step, leads where it is resolved to. -/
theorem place_eq_resolve (absolute : project.root.absolute = true)
    (found : project.disk.locate (project.root.join (.ofText file)) = .ok place) :
    place = (project.resolve file).names := by
  have named : (project.root.join (.ofText file)).absolute = true := absolute_resolve absolute file
  unfold Files.Disk.locate at found
  rw [named] at found
  exact Files.Disk.follow_eq (Files.Disk.mapError_eq_ok.mp found)

theorem barred_locate (escapes : Escapes root file) : Bars root (outsideError file) (locate file) := by
  rintro project rfl
  have out : project.root.contains (project.root.join (.ofText file)).normal = false := by
    unfold Files.Path.contains
    rw [← Bool.not_eq_true, List.isPrefixOf_iff_prefix]
    exact escapes
  unfold locate outsideError
  rw [perform_bind_ok _ (perform_get _)]
  by_cases nul : file.toList.contains '\x00' = true
  · rw [if_pos nul, if_pos nul]
    rfl
  · rw [if_neg nul, if_neg nul]
    dsimp only
    rw [out]
    rfl

theorem barred_readSource (escapes : Escapes root file) : Bars root (outsideError file) (readSource file) :=
  (barred_locate escapes).bind _

/-- The error refuses a request because of the path or the type of its file, or because no rule is named. -/
def Refuses (file : String) (e : ProjectError) : Prop :=
  e = outsideError file ∨ ∃ message details, e = .refused ⟨.validationError, message, details⟩

theorem barred_loadDocument (escapes : Escapes root file) : ∃ e, Refuses file e ∧ Bars root e (loadDocument file) := by
  unfold loadDocument
  split
  · exact ⟨_, .inr ⟨_, _, rfl⟩, bars_throw _⟩
  · exact ⟨_, .inl rfl, (barred_readSource escapes).bind _⟩

theorem barred_loadSheet (escapes : Escapes root file) : ∃ e, Refuses file e ∧ Bars root e (loadSheet file) := by
  unfold loadSheet
  dsimp only
  split
  · exact ⟨_, .inr ⟨_, _, rfl⟩, (bars_throw _).bind _⟩
  · split
    · exact ⟨_, .inr ⟨_, _, rfl⟩, (bars_throw _).bind _⟩
    · exact ⟨_, .inl rfl, (barred_readSource escapes).bind _⟩

theorem barred_editSheet {target : SourceLocator} (escapes : Escapes root target.styleFile) (kind : TransformKind)
    (requestId : String) (edit : SheetEdit) :
    ∃ e, Refuses target.styleFile e ∧ Bars root e (editSheet target kind requestId edit) := by
  unfold editSheet targetSelector
  split
  · obtain ⟨e, refuses, bars⟩ := barred_loadSheet escapes
    exact ⟨e, refuses, bars.bind _⟩
  · exact ⟨_, .inr ⟨_, _, rfl⟩, (bars_throw _).bind _⟩

/-- The edit of a file outside the project is refused, whatever the project holds. -/
theorem barred_edit {request : Request} (escapes : Escapes root (editedFile request)) :
    ∃ e, Refuses (editedFile request) e ∧ Bars root e (edit request) := by
  unfold editedFile at escapes ⊢
  unfold edit
  cases change : request.change with
  | textUpdate prior new =>
    rw [change] at escapes
    obtain ⟨e, refuses, bars⟩ := barred_loadDocument escapes
    exact ⟨e, refuses, bars.bind _⟩
  | _ =>
    rw [change] at escapes
    exact barred_editSheet escapes _ _ _

end Retouch.Project
