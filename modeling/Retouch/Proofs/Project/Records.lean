import Retouch.Proofs.Files.Folders
import Retouch.Proofs.Project.Frame
import Retouch.Proofs.Project.Undo

/-!
# What leaves the history of a project alone

The records of a project lie in a folder of their own. They are the same, and are read as before, after everything
that writes no file of a record: this is so for all that comes before a file is written, for drafts and copies, and for
every write at another place.

## Main statements

* `same_write`: a file that is written, and is that of no record, leaves the history alone.
* `same_edit_error`: so does a failed edit.
* `same_undo`: so does it to undo a transform whose texts are not those of records.
-/
namespace Retouch.Project

/-! ### Records among the files -/

/-- The folder of a project is told from the root on, without steps back. -/
structure Seated (root : Files.Path) : Prop where
  proper : root.Proper
  clean : Files.Path.back ∉ root.names

/-- The file in the history that has a name. -/
def historyFile (root : Files.Path) (name : String) : Files.Path := (historyFolder root).child name

theorem historyFile_names (root : Files.Path) (name : String) :
    (historyFile root name).names = (historyFolder root).names ++ [name] := rfl

theorem historyFile_absolute {root : Files.Path} (seated : Seated root) (name : String) :
    (historyFile root name).absolute = true := seated.proper.absolute

theorem historyFile_clean {root : Files.Path} {name : String} (seated : Seated root)
    (named : recordSuffix.toList <:+ name.toList) : Files.Path.back ∉ (historyFile root name).names := by
  have other : name ≠ Files.Path.back := by
    rintro rfl
    revert named
    decide
  simp only [historyFile_names, historyFolder, toolFolder, Files.Path.child, List.mem_append, List.mem_singleton,
    not_or]
  exact ⟨⟨⟨seated.clean, by decide⟩, by decide⟩, fun same => other same.symm⟩

/-- The age of a file as records are listed; folders have none. -/
def listedAge : Files.Node → Nat
  | .file f => f.age + 1
  | .folder => 0

theorem listed?_concat (folder : Files.Path) (front : Files.Place) (name : String) (node : Files.Node) :
    listed? folder (front ++ [name], node) =
      if front = folder.names ∧ recordSuffix.toList <:+ name.toList then some ⟨name, listedAge node⟩ else none := by
  unfold listed?
  rw [List.getLast?_concat, List.dropLast_concat]
  dsimp only
  by_cases here : front = folder.names
  · by_cases named : recordSuffix.toList <:+ name.toList
    · rw [if_pos here, if_pos ⟨here, named⟩, Option.bind_some]
      simp only [List.isSuffixOf_iff_suffix, named, if_true]
      cases node <;> rfl
    · rw [if_pos here, if_neg fun both => named both.2, Option.bind_some]
      simp only [List.isSuffixOf_iff_suffix, named, if_false]
  · rw [if_neg here, if_neg fun both => here both.1]
    rfl

/-- What is listed as a record: the nodes of the folder whose names have the suffix of records. -/
theorem listed?_eq_some_iff {folder : Files.Path} {place : Files.Place} {node : Files.Node} {file : RecordFile} :
    listed? folder (place, node) = some file ↔
      place = folder.names ++ [file.name] ∧ recordSuffix.toList <:+ file.name.toList ∧ file.age = listedAge node := by
  obtain ⟨name, age⟩ := file
  rcases List.eq_nil_or_concat place with rfl | ⟨front, last, rfl⟩
  · simp [listed?]
  · rw [List.concat_eq_append, listed?_concat]
    constructor
    · intro same
      split at same
      · rename_i both
        cases same
        exact ⟨by rw [both.1], both.2, rfl⟩
      · cases same
    · rintro ⟨same, named, rfl⟩
      obtain ⟨rfl, last_eq⟩ := List.append_inj' same rfl
      obtain rfl := List.singleton_inj.mp last_eq
      rw [if_pos ⟨rfl, named⟩]

theorem mem_recordFiles {disk : Files.Disk} {folder : Files.Path} {file : RecordFile} :
    file ∈ recordFiles disk folder ↔ ∃ node, (folder.names ++ [file.name], node) ∈ disk.nodes ∧
      recordSuffix.toList <:+ file.name.toList ∧ file.age = listedAge node := by
  rw [recordFiles_eq, List.mem_mergeSort, List.mem_filterMap]
  constructor
  · rintro ⟨⟨place, node⟩, member, listed⟩
    obtain ⟨rfl, named, age⟩ := listed?_eq_some_iff.mp listed
    exact ⟨node, member, named, age⟩
  · rintro ⟨node, member, named, age⟩
    exact ⟨_, member, listed?_eq_some_iff.mpr ⟨rfl, named, age⟩⟩

/-! ### The same history -/

variable {project before middle after : Project} {path : Files.Path} {place : Files.Place} {bytes : Text.Bytes}

/-- The same records are listed, and those that could be read are read as before. -/
structure SameHistory (before after : Project) : Prop where
  root : after.root = before.root
  settings : after.settings = before.settings
  recorded : after.recorded = before.recorded
  home : after.disk.home = before.disk.home
  listed : recordFiles after.disk (historyFolder before.root) = recordFiles before.disk (historyFolder before.root)
  held : ∀ file ∈ recordFiles before.disk (historyFolder before.root), ∀ bytes,
    before.disk.read (historyFile before.root file.name) = .ok bytes →
      after.disk.read (historyFile before.root file.name) = .ok bytes
  /-- Files that are written from now on are newer than those that were there. -/
  later : before.disk.writes ≤ after.disk.writes

namespace SameHistory

theorem of_cache (project : Project) (cache : Cache) : SameHistory project { project with cache } :=
  ⟨rfl, rfl, rfl, rfl, rfl, fun _ _ _ read => read, Nat.le_refl _⟩

theorem trans {first second third : Project} (early : SameHistory first second)
    (late : SameHistory second third) : SameHistory first third where
  root := late.root.trans early.root
  settings := late.settings.trans early.settings
  recorded := late.recorded.trans early.recorded
  home := late.home.trans early.home
  listed := by
    have listed := late.listed
    rw [early.root] at listed
    exact listed.trans early.listed
  held file member bytes read := by
    have held := late.held file (by rw [early.root, early.listed]; exact member) bytes
    rw [early.root] at held
    exact held (early.held file member bytes read)
  later := Nat.le_trans early.later late.later

end SameHistory

/-- What is on the way to a record that can be read. -/
theorem node?_of_read {disk : Files.Disk} (absolute : path.absolute = true) (clean : Files.Path.back ∉ path.names)
    (read : disk.read path = .ok bytes) (inside : place <+: path.names) :
    (place = path.names ∧ ∃ age, disk.node? place = some (.file ⟨bytes, age⟩)) ∨
      place ≠ path.names ∧ disk.node? place = some .folder := by
  obtain ⟨leads, -, age, there⟩ := (Files.Disk.read_eq_ok_iff absolute clean).mp read
  by_cases whole : place = path.names
  · exact .inl ⟨whole, age, whole ▸ there⟩
  · exact .inr ⟨whole, Files.Disk.leads_of_prefix leads inside whole⟩

/-- A record can be read as long as all is there that leads to it. -/
theorem read_of_kept {disk other : Files.Disk} (absolute : path.absolute = true)
    (clean : Files.Path.back ∉ path.names) (read : disk.read path = .ok bytes)
    (kept : ∀ outer node, outer <+: path.names → disk.node? outer = some node → other.node? outer = some node) :
    other.read path = .ok bytes := by
  obtain ⟨leads, short, age, there⟩ := (Files.Disk.read_eq_ok_iff absolute clean).mp read
  refine (Files.Disk.read_eq_ok_iff absolute clean).mpr ⟨fun front name behind split => ?_, short, age, ?_⟩
  · exact kept _ _ ⟨name :: behind, by simp [split]⟩ (leads front name behind split)
  · exact kept _ _ List.prefix_rfl there

/-- The history says nothing of the cache. -/
theorem frame_same : Frame SameHistory := ⟨SameHistory.of_cache, SameHistory.trans⟩

/-! ### Writes elsewhere -/

/-- A write at a place that is no record's, and that leads to none, leaves the history alone. -/
theorem SameHistory.write (seated : Seated before.root) (early : SameHistory before middle) (inner : place ≠ [])
    (hidden : ∀ node, listed? (historyFolder before.root) (place, node) = none)
    (off : ∀ file ∈ recordFiles before.disk (historyFolder before.root), ∀ held,
      before.disk.read (historyFile before.root file.name) = .ok held →
        ¬place <+: (historyFile before.root file.name).names) (bytes : Text.Bytes) :
    SameHistory before { middle with disk := middle.disk.write place bytes } where
  root := early.root
  settings := early.settings
  recorded := early.recorded
  home := early.home
  listed := by
    rw [← early.listed, recordFiles_eq, recordFiles_eq]
    congr 1
    exact Table.filterMap_put _ _ _ _ hidden
  held file member held read := by
    have named := (mem_recordFiles.mp member).choose_spec.2.1
    refine read_of_kept (historyFile_absolute seated _) (historyFile_clean seated named)
      (early.held file member held read) fun outer node inside there => ?_
    have apart : place ≠ outer := by
      rintro rfl
      exact off file member held read inside
    dsimp only
    rw [Files.Disk.node?_write _ _ _ _ inner, if_neg apart, there]
  later := Nat.le_trans early.later (Nat.le_succ _)

theorem SameHistory.makeFolders (seated : Seated project.root) {disk : Files.Disk}
    (made : project.disk.makeFolders path = .ok disk)
    (hidden : ∀ place node, place.length ≤ path.names.length →
      listed? (historyFolder project.root) (place, node) = none) :
    SameHistory project { project with disk } where
  root := rfl
  settings := rfl
  recorded := rfl
  home := (Files.Disk.makeFrom_frame (Files.Disk.makeFolders_ok made)).1
  listed := by
    rw [recordFiles_eq, recordFiles_eq]
    congr 1
    refine Files.Disk.filterMap_makeFrom _ (Files.Disk.makeFolders_ok made) fun place node _ shorter => ?_
    exact hidden place node (by simpa using shorter)
  held file member held read := by
    have named := (mem_recordFiles.mp member).choose_spec.2.1
    refine read_of_kept (historyFile_absolute seated _) (historyFile_clean seated named) read
      fun outer node inside there => ?_
    rcases Files.Disk.node?_makeFolders made outer with same | ⟨none, -⟩
    · exact same.trans there
    · rw [none] at there
      cases there
  later := Nat.le_of_eq (Files.Disk.makeFrom_frame (Files.Disk.makeFolders_ok made)).2.symm

/-- The folders up to that of the history are no records. -/
theorem hidden_of_length {root : Files.Path} (node : Files.Node)
    (shorter : place.length ≤ (historyFolder root).names.length) :
    listed? (historyFolder root) (place, node) = none := by
  cases found : listed? (historyFolder root) (place, node) with
  | none => rfl
  | some file =>
    obtain ⟨rfl, -, -⟩ := listed?_eq_some_iff.mp found
    simp at shorter

/-! ### Everything up to a write -/

/-- What leaves the history of a project alone whose folder is told from the root on. -/
def Spares (before after : Project) : Prop := Seated before.root → SameHistory before after

theorem frame_spares : Frame Spares where
  cache project cache _ := .of_cache project cache
  trans early late seated := (early seated).trans (late ((early seated).root ▸ seated))

theorem spares_backUp (path : Files.Path) (bytes : Text.Bytes) : Within Spares (backUp path bytes) := by
  intro project seated
  have length : (backupsFolder project.root).names.length = (historyFolder project.root).names.length := by
    simp [backupsFolder, historyFolder, toolFolder, Files.Path.child]
  have apart : (backupsFolder project.root).names ≠ (historyFolder project.root).names := by
    simp [backupsFolder, historyFolder, toolFolder, Files.Path.child]
  unfold backUp
  rw [perform_bind_ok _ (perform_get _)]
  dsimp only
  split
  · exact .of_cache project project.cache
  · rename_i disk made
    have folders : SameHistory project { project with disk } :=
      .makeFolders seated made fun place node shorter => hidden_of_length node (length ▸ shorter)
    split
    · exact folders
    · -- The copy lies in another folder.
      refine folders.write seated (by simp [Files.Path.child]) (fun node => ?_) (fun file _ _ _ inside => ?_) bytes
      · rw [Files.Path.child, listed?_concat, if_neg fun both => apart both.1]
      · have whole := List.IsPrefix.eq_of_length inside (by simp [Files.Path.child, historyFile_names, length])
        exact apart (List.append_inj whole length).1

theorem spares_replaceFile_error (path : Files.Path) (content : List Char) :
    WithinFailing Spares (replaceFile path content) := by
  intro project e after failed seated
  unfold replaceFile at failed
  rw [perform_bind_ok _ (perform_get _)] at failed
  rcases perform_bind_eq_error _ failed with stopped | ⟨there, middle, located, failed⟩
  · exact (frame_spares.lift _ _).related stopped seated
  · obtain ⟨-, rfl⟩ := perform_lift_eq_ok _ located
    dsimp only at failed
    split at failed
    · rw [perform_bind_error _ (perform_refuse _ _ _ _)] at failed
      cases failed
      exact .of_cache project project.cache
    · split at failed
      · exact (frame_spares.throw _).related failed seated
      · split at failed
        · cases failed
        · -- The draft is a new file, so it is on the way to nothing, and has another suffix than records.
          rw [perform_bind_ok _ (perform_set _ _)] at failed
          cases failed
          have new := node?_draft project.disk there.dropLast path
          refine (SameHistory.of_cache project project.cache).write seated (by simp) (fun node => ?_)
            (fun file member held read inside => ?_) []
          · exact listed?_unnamed node (draftName_unnamed path _)
          · have named := (mem_recordFiles.mp member).choose_spec.2.1
            rcases node?_of_read (historyFile_absolute seated _) (historyFile_clean seated named) read inside with
              ⟨-, _, file⟩ | ⟨-, folder⟩
            · rw [new] at file
              cases file
            · rw [new] at folder
              cases folder

/-- A failed edit leaves the history alone. -/
theorem same_edit_error {request : Request} {e : ProjectError} (seated : Seated project.root)
    (failed : project.perform (edit request) = (.error e, after)) : SameHistory project after :=
  frame_spares.failing_edit spares_backUp spares_replaceFile_error request project e after failed seated

/-! ### Writes -/

/-- The place that a path leads to by its names. -/
def leadsTo (disk : Files.Disk) (path : Files.Path) : Files.Place :=
  Files.Path.follow (if path.absolute then [] else disk.home) path.names

theorem locate_eq_leadsTo {disk : Files.Disk} (found : disk.locate path = .ok place) : place = leadsTo disk path :=
  Files.Disk.follow_eq (Files.Disk.mapError_eq_ok.mp found)

/-- The path does not lead to the file of a record. -/
def Unrecorded (project : Project) (path : Files.Path) : Prop :=
  ∀ file ∈ recordFiles project.disk (historyFolder project.root),
    leadsTo project.disk path ≠ (historyFile project.root file.name).names

theorem SameHistory.unrecorded (same : SameHistory before after) (unrecorded : Unrecorded before path) :
    Unrecorded after path := by
  have aim : leadsTo after.disk path = leadsTo before.disk path := by
    unfold leadsTo
    rw [same.home]
  intro file member
  rw [same.root, same.listed] at member
  rw [aim, same.root]
  exact unrecorded file member

/-- A file that is written, and is that of no record, leaves the history alone. -/
theorem same_write {content : List Char} {expected : Option (List Char)} (seated : Seated project.root)
    (unrecorded : Unrecorded project path) :
    SameHistory project (project.perform (write path content expected)).2 := by
  rcases outcome : project.perform (write path content expected) with ⟨e | written, after⟩
  · exact frame_spares.failing_write (spares_backUp path) (spares_replaceFile_error path) content expected project e
      after outcome seated
  · unfold write at outcome
    obtain ⟨⟨current, copied⟩, middle, prepared, replaced⟩ := perform_bind_eq_ok project outcome
    obtain ⟨_, last, replaced, done⟩ := perform_bind_eq_ok middle replaced
    cases done
    have early : SameHistory project middle :=
      (frame_spares.prepareWrite (spares_backUp path) expected).related prepared seated
    obtain ⟨place, _, bytes, found, -, -, -, rfl⟩ := replaceFile_eq_ok_iff.mp replaced
    obtain ⟨⟨old, _, read, -⟩, -⟩ := prepareWrite_eq_ok prepared
    -- The path led to a file before, at the same place.
    obtain ⟨place', age, found', there⟩ := Files.Disk.read_eq_ok.mp read
    obtain rfl : place = place' := by
      rw [locate_eq_leadsTo found, locate_eq_leadsTo found', leadsTo, leadsTo, early.home]
    have here := locate_eq_leadsTo found'
    have inner : place ≠ [] := by
      rintro rfl
      cases there
    refine early.write seated inner (fun node => ?_) (fun file member held read inside => ?_) bytes
    · cases listed : listed? (historyFolder project.root) (place, node) with
      | none => rfl
      | some file =>
        obtain ⟨same, named, -⟩ := listed?_eq_some_iff.mp listed
        unfold Files.Disk.node? at there
        rw [if_neg inner] at there
        have member : (⟨file.name, age + 1⟩ : RecordFile) ∈ recordFiles project.disk (historyFolder project.root) :=
          mem_recordFiles.mpr ⟨.file ⟨old, age⟩, same ▸ Table.mem_of_get? there, named, rfl⟩
        exact absurd (here.symm.trans same) (unrecorded ⟨file.name, age + 1⟩ member)
    · have named := (mem_recordFiles.mp member).choose_spec.2.1
      rcases node?_of_read (historyFile_absolute seated _) (historyFile_clean seated named) read inside with
        ⟨same, -⟩ | ⟨-, folder⟩
      · exact unrecorded file member (here.symm.trans same)
      · rw [there] at folder
        cases folder

/-! ### Undoing -/

/-- No text of a record is told to be that of a record. -/
def Innocent (project : Project) (patches : List Json) : Prop :=
  ∀ patch name, .obj patch ∈ patches → patch.lookup fileKey = some (.str name) → Unrecorded project (.ofText name)

theorem SameHistory.innocent {patches : List Json} (same : SameHistory before after)
    (innocent : Innocent before patches) : Innocent after patches :=
  fun patch name member told => same.unrecorded (innocent patch name member told)

theorem same_applyPatch {name : String} (seated : Seated project.root) (unrecorded : Unrecorded project (.ofText name))
    (content : Json) : SameHistory project (project.perform (applyPatch (.str name) content)).2 := by
  unfold applyPatch
  dsimp only
  refine frame_same.try_at ?_ fun e => ?_
  · cases content with
    | str text => exact frame_same.bind_at (same_write seated unrecorded) fun _ => frame_same.pure _
    | _ =>
      refine frame_same.bind_at ?_ fun _ => frame_same.throw _
      exact frame_spares.prepareWrite (spares_backUp _) none project seated
  · split
    · exact frame_same.pure _
    · exact frame_same.throw _

theorem same_applyPatches (seated : Seated project.root) {patches : List Json} (innocent : Innocent project patches)
    (done : Undone) : SameHistory project (project.perform (applyPatches patches done)).2 := by
  induction patches generalizing project done with
  | nil => exact .of_cache project project.cache
  | cons patch rest ih =>
    have later {after : Project} (same : SameHistory project after) (done : Undone) :
        SameHistory project (after.perform (applyPatches rest done)).2 := by
      refine same.trans (ih (same.root ▸ seated) (same.innocent ?_) done)
      exact fun patch name member => innocent patch name (List.mem_cons_of_mem _ member)
    have choice {reason : Prop} [Decidable reason] {bad good : Action Undone}
        (stopped : SameHistory project (project.perform bad).2) (tried : SameHistory project (project.perform good).2) :
        SameHistory project (project.perform (if reason then bad else good)).2 := by
      split
      · exact stopped
      · exact tried
    cases patch with
    | obj members =>
      have applied : SameHistory project (project.perform (applyPatch ((members.lookup fileKey).getD .null)
          ((members.lookup contentKey).getD .null))).2 := by
        cases file : (members.lookup fileKey).getD .null with
        | str name =>
          refine same_applyPatch seated (innocent members name List.mem_cons_self ?_) _
          cases found : members.lookup fileKey with
          | none => simp [found] at file
          | some value => simpa [found] using file
        | _ => exact .of_cache project project.cache
      unfold applyPatches
      dsimp only
      refine choice (later (.of_cache project project.cache) _) ?_
      rw [perform_bind]
      rcases outcome : project.perform (applyPatch ((members.lookup fileKey).getD .null)
        ((members.lookup contentKey).getD .null)) with ⟨e | error, after⟩
      · rw [outcome] at applied
        exact applied
      · rw [outcome] at applied
        cases error <;> exact later applied _
    | _ => exact .of_cache project project.cache

/-- The texts that are restored with an id are not those of records. -/
def Trusted (project : Project) (id : String) : Prop :=
  ∀ members patches, (project.perform (transaction? id)).1 = .ok (some members) → patchesOf members = .ok patches →
    Innocent project patches

/-- To undo a transform leaves the history alone, if its texts are not those of records. -/
theorem same_undo {id : String} (seated : Seated project.root) (trusted : Trusted project id) :
    SameHistory project (project.perform (undo id)).2 := by
  have read := frame_same.transaction? id project
  unfold undo
  rw [perform_bind]
  rcases found : project.perform (transaction? id) with ⟨e | members, middle⟩
  · rw [found] at read
    exact read
  · rw [found] at read
    cases members with
    | none => exact read
    | some members =>
      dsimp only
      rw [perform_bind]
      cases told : patchesOf members with
      | error e => exact read
      | ok patches =>
        rw [lift, perform_pure]
        dsimp only
        have innocent := trusted members patches (congrArg Prod.fst found) told
        refine frame_same.trans read (frame_same.bind_at ?_ fun done => ?_)
        · exact same_applyPatches (read.root ▸ seated) (read.innocent innocent) {}
        · intro project
          obtain ⟨cache, forgot⟩ := perform_forget done.applied project
          rw [perform_bind_ok _ forgot]
          exact .of_cache project cache

end Retouch.Project
