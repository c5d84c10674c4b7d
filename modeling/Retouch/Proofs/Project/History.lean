import Mathlib.Data.List.Sort
import Retouch.Proofs.Project.Records

/-!
# The history as a log

The history of a project is a log of the transforms that were made, newest first. Each note of the log lies in a file of
its own, whose number is new and whose age is greater than that of all others; it tells what was asked for and the text
that the edited file held just before.

## Main statements

* `Logged.record`: a transform that is recorded comes first.
* `Logged.history_run`: the newest notes are listed as they were written.
* `Logged.clear`: the oldest notes are removed.
-/
namespace Retouch.Project

variable {project before middle after : Project} {path : Files.Path} {place : Files.Place} {r : Record}

/-! ### The order of records -/

theorem before_trans (a b c : RecordFile) (first : a.before b = true) (second : b.before c = true) :
    a.before c = true := by
  simp only [RecordFile.before, Bool.or_eq_true, Bool.and_eq_true, decide_eq_true_eq, beq_iff_eq] at *
  rcases first with first | ⟨same, first⟩ <;> rcases second with second | ⟨same', second⟩
  · exact .inl (by omega)
  · exact .inl (by omega)
  · exact .inl (by omega)
  · exact .inr ⟨same.trans same', String.le_trans second first⟩

theorem before_total (a b : RecordFile) : (a.before b || b.before a) = true := by
  simp only [RecordFile.before, Bool.or_eq_true, Bool.and_eq_true, decide_eq_true_eq, beq_iff_eq]
  rcases Nat.lt_trichotomy a.age b.age with less | same | more
  · exact .inr (.inl less)
  · rcases String.le_total a.name b.name with le | le
    · exact .inr (.inr ⟨same.symm, le⟩)
    · exact .inl (.inr ⟨same, le⟩)
  · exact .inl (.inl more)

theorem before_antisymm (a b : RecordFile) (first : a.before b = true) (second : b.before a = true) : a = b := by
  obtain ⟨name, age⟩ := a
  obtain ⟨name', age'⟩ := b
  simp only [RecordFile.before, Bool.or_eq_true, Bool.and_eq_true, decide_eq_true_eq, beq_iff_eq] at *
  rcases first with first | ⟨same, first⟩ <;> rcases second with second | ⟨same', second⟩
  · omega
  · omega
  · omega
  · rw [same, String.le_antisymm second first]

/-- Files of different ages are listed by their ages, wherever they stand among the nodes. -/
theorem recordFiles_eq_of_perm {disk : Files.Disk} {folder : Files.Path} {files : List RecordFile}
    (newest : files.Pairwise fun first second => second.age < first.age)
    (found : (disk.nodes.filterMap (listed? folder)).Perm files) : recordFiles disk folder = files := by
  rw [recordFiles_eq]
  have sorted := List.pairwise_mergeSort before_trans before_total (disk.nodes.filterMap (listed? folder))
  refine List.Perm.eq_of_pairwise (fun a b _ _ => before_antisymm a b) sorted (newest.imp fun less => ?_)
    ((List.mergeSort_perm _ _).trans found)
  simp [RecordFile.before, less]

/-! ### Room for records -/

/-- The next record finds a place. -/
structure Writable (project : Project) : Prop where
  makes : ∃ disk, project.disk.makeFolders (historyFolder project.root) = .ok disk
  short : ∀ name ∈ (recordFile project (transactionId (project.recorded + 1))).names,
    name.utf8ByteSize ≤ Files.Disk.nameLimit

/-- On the way to the history there are no files but where there were some. -/
structure Clears (before after : Project) : Prop where
  root : after.root = before.root
  home : after.disk.home = before.disk.home
  way : ∀ place f, place <+: (historyFolder before.root).names → after.disk.node? place = some (.file f) →
    ∃ f, before.disk.node? place = some (.file f)

theorem frame_clears : Frame Clears where
  cache _ _ := ⟨rfl, rfl, fun _ f _ there => ⟨f, there⟩⟩
  trans early late := by
    refine ⟨late.root.trans early.root, late.home.trans early.home, fun place f inside there => ?_⟩
    obtain ⟨f, there⟩ := late.way place f (early.root ▸ inside) there
    exact early.way place f inside there

theorem clears_makeFolders {disk : Files.Disk} (made : project.disk.makeFolders path = .ok disk) :
    Clears project { project with disk } := by
  refine ⟨rfl, (Files.Disk.makeFrom_frame (Files.Disk.makeFolders_ok made)).1, fun place f inside there => ?_⟩
  dsimp only at there
  rcases Files.Disk.node?_makeFolders made place with same | ⟨-, folder⟩
  · exact ⟨f, same ▸ there⟩
  · rw [folder] at there
    cases there

/-- A copy lies no nearer to the root than a record. -/
theorem clears_backUp (path : Files.Path) (bytes : Text.Bytes) : Within Clears (backUp path bytes) := by
  intro project
  unfold backUp
  rw [perform_bind_ok _ (perform_get _)]
  dsimp only
  split
  · exact frame_clears.refl project
  · rename_i disk made
    have folders := clears_makeFolders made
    split
    · exact folders
    · refine ⟨rfl, folders.home, fun place f inside there => folders.way place f inside ?_⟩
      have apart : ((backupsFolder project.root).child (backupName path disk.writes)).names ≠ place := by
        rintro rfl
        exact absurd inside.length_le (by simp [backupsFolder, historyFolder, toolFolder, Files.Path.child])
      exact ((Files.Disk.node?_write _ _ _ _ (by simp [Files.Path.child])).trans (if_neg apart)).symm.trans there

/-- A file that is written was there before. -/
theorem clears_write {content : List Char} {expected : Option (List Char)} {written : List Char × Bool}
    (done : project.perform (write path content expected) = (.ok written, after)) : Clears project after := by
  unfold write at done
  obtain ⟨⟨current, copied⟩, middle, prepared, done⟩ := perform_bind_eq_ok project done
  obtain ⟨_, last, replaced, done⟩ := perform_bind_eq_ok middle done
  cases done
  have early : Clears project middle := (frame_clears.prepareWrite (clears_backUp path) expected).related prepared
  obtain ⟨place, _, bytes, found, -, -, -, rfl⟩ := replaceFile_eq_ok_iff.mp replaced
  obtain ⟨⟨old, _, read, -⟩, -⟩ := prepareWrite_eq_ok prepared
  obtain ⟨place', age, found', old_there⟩ := Files.Disk.read_eq_ok.mp read
  obtain rfl : place = place' := by
    rw [locate_eq_leadsTo found, locate_eq_leadsTo found', leadsTo, leadsTo, early.home]
  have inner : place ≠ [] := by
    rintro rfl
    cases old_there
  refine ⟨early.root, early.home, fun outer f inside there => ?_⟩
  by_cases here : place = outer
  · exact ⟨_, here ▸ old_there⟩
  · exact early.way outer f inside (((Files.Disk.node?_write _ _ _ _ inner).trans (if_neg here)).symm.trans there)

theorem Writable.clears (writable : Writable before) (clears : Clears before after)
    (recorded : after.recorded = before.recorded) : Writable after where
  makes := by
    have free := Files.Disk.makes_iff.mp writable.makes
    refine Files.Disk.makes_iff.mpr fun outer f inside there => ?_
    rw [clears.root] at inside
    obtain ⟨f, there⟩ := clears.way outer f inside there
    exact free outer f inside there
  short := by
    unfold recordFile
    rw [clears.root, recorded]
    exact writable.short

/-! ### Notes -/

/-- A note of the log: the number and the age of its file, and what it tells. -/
structure Note where
  number : Nat
  age : Nat
  record : Record
  now : String

namespace Note

def id (note : Note) : String := transactionId note.number

/-- The file of the note, as it is listed. -/
def file (note : Note) : RecordFile := ⟨note.id ++ recordSuffix, note.age + 1⟩

/-- What the note tells when it is listed. -/
def entry (note : Note) : Json.Members := (note.record.members note.now).insert idKey (.str note.id)

def bytes (note : Note) : Text.Bytes := Text.Utf8.encode ((note.record.toJson note.now).writeIndented 0).toList

end Note

theorem transactionId_injective {first second : Nat} (same : transactionId first = transactionId second) :
    first = second := by
  unfold transactionId at same
  rw [String.append_right_inj] at same
  exact Nat.repr_injective same

theorem recordName_injective {first second : Nat}
    (same : transactionId first ++ recordSuffix = transactionId second ++ recordSuffix) : first = second :=
  transactionId_injective ((String.append_left_inj _).mp same)

theorem recordName_suffix (number : Nat) : recordSuffix.toList <:+ (transactionId number ++ recordSuffix).toList := by
  rw [String.toList_append]
  exact List.suffix_append _ _

/-- The record tells the text of one file, which is not the file of a record itself. -/
structure Record.Holding (r : Record) (path : Files.Path) (text : List Char) : Prop where
  patches : r.patches = [Patch.members ⟨path, text⟩]
  metadata : Textual r.metadata
  proper : path.Proper
  clean : Files.Path.back ∉ path.names
  other : path.suffix ≠ recordSuffix

/-- The notes are the records of the project, newest first. -/
structure Logged (notes : List Note) (project : Project) : Prop where
  seated : Seated project.root
  plain : ∀ note ∈ notes, ∃ path text, note.record.Holding path text
  listed : recordFiles project.disk (historyFolder project.root) = notes.map Note.file
  held : ∀ note ∈ notes, project.disk.read (recordFile project note.id) = .ok note.bytes
  numbered : ∀ note ∈ notes, note.number ≤ project.recorded
  aged : ∀ note ∈ notes, note.age < project.disk.writes
  newest : notes.Pairwise fun first second => second.age < first.age
  distinct : notes.Pairwise fun first second => first.number ≠ second.number

namespace Logged

variable {notes : List Note}

/-- The log stays what it is when the history is left alone. -/
theorem same (logged : Logged notes before) (same : SameHistory before after) : Logged notes after where
  seated := same.root ▸ logged.seated
  plain := logged.plain
  listed := by rw [same.root, same.listed, logged.listed]
  held note member := by
    have listed : note.file ∈ recordFiles before.disk (historyFolder before.root) := by
      rw [logged.listed]
      exact List.mem_map_of_mem member
    have held := same.held note.file listed note.bytes (logged.held note member)
    unfold recordFile
    rw [same.root]
    exact held
  numbered note member := same.recorded ▸ logged.numbered note member
  aged note member := Nat.lt_of_lt_of_le (logged.aged note member) same.later
  newest := logged.newest
  distinct := logged.distinct

/-- The file of an edit is that of no record. -/
theorem unrecorded (logged : Logged notes project) (absolute : path.absolute = true)
    (clean : Files.Path.back ∉ path.names) (other : path.suffix ≠ recordSuffix) : Unrecorded project path := by
  intro file member same
  have aim : leadsTo project.disk path = path.names := by
    unfold leadsTo
    rw [absolute, Files.Path.follow_of_clean _ _ clean]
    rfl
  rw [logged.listed] at member
  obtain ⟨note, -, rfl⟩ := List.mem_map.mp member
  refine other ((?_ : path.suffix = _).trans (suffix_recordFile project note.number))
  unfold Files.Path.suffix Files.Path.lastName
  rw [← aim, same]
  rfl

/-! ### A new record -/

/-- There is nothing yet where the next record is to lie. -/
theorem fresh (logged : Logged notes project) {disk : Files.Disk}
    (made : project.disk.makeFolders (historyFolder project.root) = .ok disk) :
    ∀ entry ∈ disk.nodes, entry.1 ≠ (recordFile project (transactionId (project.recorded + 1))).names := by
  rintro ⟨place, node⟩ member rfl
  have folders := SameHistory.makeFolders logged.seated made fun place node shorter => hidden_of_length node shorter
  have found : (⟨transactionId (project.recorded + 1) ++ recordSuffix, listedAge node⟩ : RecordFile) ∈
      recordFiles disk (historyFolder project.root) :=
    mem_recordFiles.mpr ⟨node, member, recordName_suffix _, rfl⟩
  have listed := folders.listed
  dsimp only at listed
  rw [listed, logged.listed] at found
  obtain ⟨note, old, same⟩ := List.mem_map.mp found
  have number := recordName_injective (congrArg RecordFile.name same)
  have numbered := logged.numbered note old
  omega

/-- A transform that is recorded comes first. -/
theorem record (logged : Logged notes project) (writable : Writable project) {text : List Char}
    (holding : r.Holding path text) {transaction : Option String}
    (done : project.perform (record r) = (.ok transaction, after)) :
    ∃ age, Logged (⟨project.recorded + 1, age, r, project.now⟩ :: notes) after := by
  obtain ⟨disk, made⟩ := writable.makes
  obtain rfl : after = { project with
      disk := disk.write (recordFile project (transactionId (project.recorded + 1))).names
        (Text.Utf8.encode ((r.toJson project.now).writeIndented 0).toList)
      recorded := project.recorded + 1 } := by
    unfold Project.record at done
    rw [perform_bind_ok _ (perform_get _)] at done
    dsimp only at done
    rw [made] at done
    dsimp only at done
    rw [perform_bind_ok _ (perform_set _ _)] at done
    exact (congrArg Prod.snd done).symm
  have folders := SameHistory.makeFolders logged.seated made fun place node shorter => hidden_of_length node shorter
  have logged' := logged.same folders
  have fresh := logged.fresh made
  have new : listed? (historyFolder project.root) ((recordFile project (transactionId (project.recorded + 1))).names,
      .file ⟨Text.Utf8.encode ((r.toJson project.now).writeIndented 0).toList, disk.writes⟩) =
      some (Note.file ⟨project.recorded + 1, disk.writes, r, project.now⟩) :=
    listed?_eq_some_iff.mpr ⟨rfl, recordName_suffix _, rfl⟩
  have newest : (⟨project.recorded + 1, disk.writes, r, project.now⟩ :: notes).Pairwise
      fun first second : Note => second.age < first.age :=
    List.pairwise_cons.mpr ⟨logged'.aged, logged.newest⟩
  refine ⟨disk.writes, logged.seated, ?_, ?_, ?_, ?_, ?_, newest, ?_⟩
  · exact List.forall_mem_cons.mpr ⟨⟨path, text, holding⟩, logged.plain⟩
  · refine recordFiles_eq_of_perm (List.pairwise_map.mpr (newest.imp Nat.succ_lt_succ)) ?_
    have old : (disk.nodes.filterMap (listed? (historyFolder project.root))).Perm (notes.map Note.file) := by
      rw [← logged'.listed, recordFiles_eq]
      exact (List.mergeSort_perm _ _).symm
    unfold Files.Disk.write
    dsimp only
    rw [Table.put_new _ fresh, List.filterMap_append, List.filterMap_cons_some new, List.filterMap_nil]
    exact (List.perm_append_singleton _ _).trans (old.cons _)
  · intro note member
    have absolute := historyFile_absolute logged.seated (note.id ++ recordSuffix)
    have clean := historyFile_clean logged.seated (recordName_suffix note.number)
    have inner : (recordFile project (transactionId (project.recorded + 1))).names ≠ [] := by
      simp [recordFile, Files.Path.child]
    rcases List.mem_cons.mp member with rfl | old
    · exact Files.Disk.read_write_child made logged.seated.proper.absolute clean writable.short _
    · have numbered := logged.numbered note old
      refine read_of_kept absolute clean (logged'.held note old) fun outer node inside there => ?_
      have apart : (recordFile project (transactionId (project.recorded + 1))).names ≠ outer := by
        rintro rfl
        have whole := List.IsPrefix.eq_of_length inside (by simp [recordFile, Files.Path.child])
        have number := recordName_injective (List.singleton_inj.mp (List.append_inj' whole rfl).2)
        omega
      dsimp only
      rw [Files.Disk.node?_write _ _ _ _ inner, if_neg apart, there]
  · intro note member
    rcases List.mem_cons.mp member with rfl | old
    · exact Nat.le_refl _
    · exact Nat.le_succ_of_le (logged.numbered note old)
  · intro note member
    rcases List.mem_cons.mp member with rfl | old
    · exact Nat.lt_succ_self _
    · exact Nat.lt_succ_of_lt (logged'.aged note old)
  · refine List.pairwise_cons.mpr ⟨fun note member same => ?_, logged.distinct⟩
    have numbered := logged.numbered note member
    dsimp only at same
    omega

/-! ### Edits -/

/-- An edit that is made comes first, with the text that its file held. -/
theorem edit (logged : Logged notes project) (writable : Writable project) (asked : project.settings.history = true)
    {request : Request} {edited : Edited} (done : project.perform (edit request) = (.ok edited, after)) :
    ∃ note text, Logged (note :: notes) after ∧ after.settings = project.settings ∧
      note.record.Of request.change.kind request.id ∧
      note.record.Holding (project.resolve (editedFile request)) text ∧
      Holds project (project.resolve (editedFile request)) text := by
  obtain ⟨other, text, updated, r, told, ends⟩ := edit_eq_ok done
  have proper : (project.resolve (editedFile request)).Proper := (logged.seated.proper.join _).normal
  have clean : Files.Path.back ∉ (project.resolve (editedFile request)).names := Files.Path.not_mem_normal _
  have holding : r.Holding (project.resolve (editedFile request)) text :=
    ⟨ends.patches, ends.metadata, proper, clean, other⟩
  have holds := ends.reads.1
  have settings := (ends.frame clean).2.1
  obtain ⟨-, -, copied, middle, last, cache, wrote, noted, rfl⟩ := ends
  have same : SameHistory project middle := by
    have whole : SameHistory project (project.perform (write _ updated (some text))).2 :=
      same_write logged.seated (logged.unrecorded proper.absolute clean other)
    rwa [wrote] at whole
  rcases noted with ⟨unasked, -⟩ | recorded
  · rw [same.settings, asked] at unasked
    cases unasked
  · have ready := writable.clears (clears_write wrote) same.recorded
    obtain ⟨age, logged'⟩ := (logged.same same).record ready holding recorded
    exact ⟨_, text, logged'.same (.of_cache last cache), settings, told, holding, holds⟩

/-! ### Listing -/

/-- The record of a note is read as it was written. -/
theorem readRecord?_note (logged : Logged notes project) {note : Note} (member : note ∈ notes) :
    project.perform (readRecord? (historyFile project.root note.file.name)) =
      (.ok (some (note.record.members note.now)), project) := by
  obtain ⟨path, text, holding⟩ := logged.plain note member
  exact readRecord?_run (readable_toJson ⟨path, text⟩ holding.patches holding.metadata note.now)
    (logged.held note member)

theorem listed_run (logged : Logged notes project) {note : Note} (member : note ∈ notes) :
    project.perform ( entry? (historyFolder project.root) note.file.name (Files.stem note.file.name)) =
      (.ok (some note.entry), project) := by
  have stem : Files.stem note.file.name = note.id := by
    unfold Files.stem Note.file
    rw [Note.id, suffixOfName_record, String.toList_append, List.length_append, Nat.add_sub_cancel, List.take_left,
      String.ofList_toList]
  unfold entry?
  rw [stem, ← historyFile, perform_bind_ok _ (logged.readRecord?_note member)]
  rfl

/-- The newest notes are listed as they were written. -/
theorem history_run (logged : Logged notes project) {count : Int} (some_wanted : 1 ≤ count) :
    project.perform (history (some count)) = (.ok ((notes.take count.toNat).map Note.entry), project) := by
  have run : project.perform (((notes.take count.toNat).map Note.file).mapM fun file =>
      entry? (historyFolder project.root) file.name (Files.stem file.name)) =
        (.ok ((notes.take count.toNat).map fun note => some note.entry), project) := by
    rw [List.mapM_map]
    exact perform_mapM _ fun note member => logged.listed_run (List.mem_of_mem_take member)
  unfold history
  rw [perform_bind_ok _ (perform_get _)]
  dsimp only
  rw [if_neg (by omega), firstItems, if_pos (by omega), logged.listed, ← List.map_take, perform_bind_ok _ run,
    perform_pure, List.filterMap_map]
  simp

/-! ### Clearing -/

omit project in
theorem filterMap_remove (disk : Files.Disk) (folder : Files.Path) (name : String) :
    (disk.remove (folder.child name).names).nodes.filterMap (listed? folder) =
      (disk.nodes.filterMap (listed? folder)).filter fun file => file.name ≠ name := by
  unfold Files.Disk.remove
  rw [List.filterMap_filter, List.filter_filterMap]
  refine List.filterMap_congr fun (place, node) _ => ?_
  cases listed : listed? folder (place, node) with
  | none => simp
  | some file =>
    obtain ⟨rfl, -, -⟩ := listed?_eq_some_iff.mp listed
    -- Two files of one folder lie in each other just if they are one.
    have inside : (folder.child name).names <+: folder.names ++ [file.name] ↔ file.name = name := by
      simp [Files.Path.child, List.prefix_append_right_inj, eq_comm]
    have whole : (folder.child name).names.isPrefixOf (folder.names ++ [file.name]) = decide (file.name = name) := by
      rw [Bool.eq_iff_iff, List.isPrefixOf_iff_prefix, decide_eq_true_iff, inside]
    rw [Option.filter_some, whole]
    simp

/-- A record that is removed is listed no more, and all others are. -/
theorem remove {front back : List Note} {note : Note} (logged : Logged (front ++ note :: back) project) :
    Logged (front ++ back)
      { project with disk := project.disk.remove (recordFile project note.id).names } := by
  have sub : (front ++ back).Sublist (front ++ note :: back) := (List.sublist_cons_self note back).append_left front
  have apart : ∀ other ∈ front ++ back, other.file.name ≠ note.file.name := by
    intro other member same
    have number := recordName_injective same
    have distinct := List.pairwise_append.mp logged.distinct
    rcases List.mem_append.mp member with early | late
    · exact distinct.2.2 other early note List.mem_cons_self number
    · exact (List.pairwise_cons.mp distinct.2.1).1 other late number.symm
  refine ⟨logged.seated, fun other member => logged.plain other (sub.subset member), ?_, fun other member => ?_,
    fun other member => logged.numbered other (sub.subset member),
    fun other member => logged.aged other (sub.subset member), logged.newest.sublist sub, logged.distinct.sublist sub⟩
  · have old : (project.disk.nodes.filterMap (listed? (historyFolder project.root))).Perm
        ((front ++ note :: back).map Note.file) := by
      rw [← logged.listed, recordFiles_eq]
      exact (List.mergeSort_perm _ _).symm
    have rest : ((front ++ note :: back).map Note.file).filter (fun file => file.name ≠ note.file.name) =
        (front ++ back).map Note.file := by
      have others : ∀ file ∈ (front ++ back).map Note.file, (decide (file.name ≠ note.file.name)) = true := by
        intro file member
        obtain ⟨other, old, rfl⟩ := List.mem_map.mp member
        exact decide_eq_true (apart other old)
      rw [List.map_append, List.forall_mem_append] at others
      rw [List.map_append, List.map_append, List.filter_append, List.map_cons, List.filter_cons_of_neg (by simp),
        List.filter_eq_self.mpr others.1, List.filter_eq_self.mpr others.2]
    refine recordFiles_eq_of_perm (List.pairwise_map.mpr ((logged.newest.sublist sub).imp Nat.succ_lt_succ)) ?_
    rw [← rest]
    refine List.Perm.trans ?_ (old.filter _)
    exact .of_eq (filterMap_remove project.disk (historyFolder project.root) note.file.name)
  · have absolute := historyFile_absolute logged.seated (other.id ++ recordSuffix)
    have clean := historyFile_clean logged.seated (recordName_suffix other.number)
    refine read_of_kept absolute clean (logged.held other (sub.subset member)) fun outer node inside there => ?_
    have outside : ¬(recordFile project note.id).names <+: outer := by
      intro further
      have whole := (further.trans inside).eq_of_length (by simp [recordFile, Files.Path.child])
      exact apart other member (List.singleton_inj.mp (List.append_inj' whole rfl).2).symm
    dsimp only
    rw [Files.Disk.node?_remove (by simp [recordFile, Files.Path.child]), if_neg outside, there]

/-- The oldest notes are removed. -/
theorem clear (logged : Logged notes project) {keep : Int} (nonneg : 0 ≤ keep) :
    ∃ disk, project.perform (clearHistory keep) =
        (.ok (notes.drop keep.toNat).length, { project with disk }) ∧
      Logged (notes.take keep.toNat) { project with disk } := by
  have removed {project : Project} (kept rest : List Note) (logged : Logged (kept ++ rest) project) :
      Logged kept { project with
        disk := (rest.map Note.file).foldl
          (fun disk file => disk.remove ((historyFolder project.root).child file.name).names) project.disk } := by
    induction rest generalizing project with
    | nil => simpa using logged
    | cons note rest ih => exact ih logged.remove
  have files : ((otherItems keep (recordFiles project.disk (historyFolder project.root))).filter
      fun file => file.age ≠ 0) = (notes.drop keep.toNat).map Note.file := by
    rw [otherItems, if_pos nonneg, logged.listed, ← List.map_drop]
    refine List.filter_eq_self.mpr fun file member => ?_
    obtain ⟨note, -, rfl⟩ := List.mem_map.mp member
    simp [Note.file]
  unfold clearHistory
  rw [perform_bind_ok _ (perform_get _)]
  dsimp only
  rw [files, perform_bind_ok _ (perform_set _ _), perform_pure, List.length_map]
  exact ⟨_, rfl, removed _ _ (by rwa [List.take_append_drop])⟩

/-! ### Undoing -/

theorem read_of_readRecord? {members : Json.Members}
    (found : project.perform (readRecord? path) = (.ok (some members), after)) :
    ∃ bytes, project.disk.read path = .ok bytes := by
  unfold readRecord? at found
  rw [perform_bind_ok _ (perform_get _)] at found
  cases read : project.disk.read path with
  | error e =>
    rw [read] at found
    cases found
  | ok bytes => exact ⟨bytes, rfl⟩

/-- A file of the history that can be read is that of a note. -/
theorem note_of_read (logged : Logged notes project) {name : String} {bytes : Text.Bytes}
    (named : recordSuffix.toList <:+ name.toList)
    (read : project.disk.read (historyFile project.root name) = .ok bytes) :
    ∃ note ∈ notes, note.file.name = name := by
  have absolute := historyFile_absolute logged.seated name
  have clean := historyFile_clean logged.seated named
  obtain ⟨-, -, age, there⟩ := (Files.Disk.read_eq_ok_iff absolute clean).mp read
  have inner : (historyFile project.root name).names ≠ [] := by simp [historyFile_names]
  unfold Files.Disk.node? at there
  rw [if_neg inner] at there
  have listed : (⟨name, age + 1⟩ : RecordFile) ∈ recordFiles project.disk (historyFolder project.root) :=
    mem_recordFiles.mpr ⟨_, Table.mem_of_get? there, named, rfl⟩
  rw [logged.listed] at listed
  obtain ⟨note, member, same⟩ := List.mem_map.mp listed
  exact ⟨note, member, congrArg RecordFile.name same⟩

/-- What is found with an id that names no other folder is one of the notes. -/
theorem transaction_note (logged : Logged notes project) {id : String} (plain : '/' ∉ id.toList)
    {members : Json.Members} (found : (project.perform (transaction? id)).1 = .ok (some members)) :
    ∃ note ∈ notes, note.entry = members := by
  have name : Files.Path.Name (id ++ recordSuffix) := by
    have dotted : '.' ∈ (id ++ recordSuffix).toList ∧ 'j' ∈ (id ++ recordSuffix).toList := by
      simp [String.toList_append, recordSuffix]
    refine ⟨fun none => ?_, fun dot => ?_, ?_⟩
    · rw [none] at dotted
      cases dotted.1
    · rw [dot] at dotted
      simp at dotted
    · rw [String.toList_append, List.mem_append, not_or]
      exact ⟨plain, by decide⟩
  rcases whole : project.perform (transaction? id) with ⟨_, after⟩
  rw [whole] at found
  obtain rfl := found
  unfold transaction? at whole
  rw [perform_bind_ok _ (perform_get _)] at whole
  dsimp only at whole
  rw [Files.Path.join_name name] at whole
  obtain ⟨node, _, sought, whole⟩ := perform_bind_eq_ok _ whole
  obtain ⟨-, rfl⟩ := perform_lift_eq_ok _ sought
  split at whole
  · cases whole
  · obtain ⟨kept, middle, read, whole⟩ := perform_bind_eq_ok _ whole
    cases kept with
    | none => cases whole
    | some kept =>
      cases whole
      obtain ⟨bytes, held⟩ := read_of_readRecord? read
      have named : recordSuffix.toList <:+ (id ++ recordSuffix).toList := by
        rw [String.toList_append]
        exact List.suffix_append _ _
      obtain ⟨note, member, same⟩ := logged.note_of_read named held
      obtain rfl : note.id = id := (String.append_left_inj _).mp same
      refine ⟨note, member, ?_⟩
      have run := logged.readRecord?_note member
      cases read.symm.trans run
      rfl

/-- The texts that are restored with such an id are those of edited files. -/
theorem trusted (logged : Logged notes project) {id : String} (plain : '/' ∉ id.toList) : Trusted project id := by
  intro members patches found told
  obtain ⟨note, member, rfl⟩ := logged.transaction_note plain found
  obtain ⟨path, text, holding⟩ := logged.plain note member
  obtain rfl : [.obj (Patch.members ⟨path, text⟩)] = patches := by
    have patched := patchesOf_record note.record note.now note.id
    rw [holding.patches] at patched
    exact Except.ok.inj (patched.symm.trans told)
  intro patch name patch_member named
  obtain rfl := Json.obj.inj (List.mem_singleton.mp patch_member)
  obtain rfl : path.toText = name := Json.str.inj (Option.some.inj named)
  rw [Files.Path.ofText_toText holding.proper]
  exact logged.unrecorded holding.proper.absolute holding.clean holding.other

end Logged

end Retouch.Project
