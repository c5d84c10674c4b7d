import Retouch.Proofs.Project.History
import Retouch.Proofs.Service.Answer

/-!
# The history of what was done with a project

Transforms are asked for and undone, the history is cleared, and files change by other hands. Throughout, the history
lists the transforms that were made and not cleared since, newest first: one entry for each, with the text that the
edited file had on disk just before, whatever was kept of it. Failures and undoings are not listed.

## Main statements

* `Deed.keeps`: what is done once keeps the history true.
* `run_faithful`: so the history is true after everything that is done in turn.
-/
namespace Retouch.Service

open Project

/-! ### What is done with a project -/

/-- A transform that was made: the project that it was made in, and what was asked for. -/
structure Made where
  before : Project
  type : Json
  input : Json

/-- A project, with the transforms that were made in it and not cleared since, newest first. -/
structure Session where
  project : Project
  log : List Made

/-- Something that is done with a project. -/
inductive Deed where
  /-- A transform is asked for. -/
  | transform (type input : Json)
  /-- A transform is undone by its id. -/
  | undo (id : String)
  /-- All records but the newest are removed. -/
  | clear (keep : Int)
  /-- Files change by other hands, what was read is forgotten or replaced, and time passes. -/
  | meanwhile (disk : Files.Disk) (cache : Cache) (now : String)

namespace Deed

def step (s : Session) : Deed → Session
  | transform type input =>
    match Registry.standard.execute type input s.project with
    | (.ok result, after) => ⟨after, if result.success then ⟨s.project, type, input⟩ :: s.log else s.log⟩
    | (.error _, after) => ⟨after, s.log⟩
  | undo id => ⟨(s.project.perform (Project.undo id)).2, s.log⟩
  | clear keep => ⟨(s.project.perform (clearHistory keep)).2, s.log.take keep.toNat⟩
  | meanwhile disk cache now => ⟨{ s.project with disk, cache, now }, s.log⟩

/-- The history has room for the next record, and others leave it alone: they do not change its files, and they lead no
undoing to a text of theirs that would have it write over records. -/
def Allowed (project : Project) : Deed → Prop
  | transform _ _ => Writable project
  | undo id => '/' ∈ id.toList → Trusted project id
  | clear keep => 0 ≤ keep
  | meanwhile disk cache now => SameHistory project { project with disk, cache, now }

end Deed

/-- What is left when all is done in turn. -/
def run (deeds : List Deed) (s : Session) : Session := deeds.foldl Deed.step s

/-- Each deed is allowed when its turn comes. -/
def Permitted : List Deed → Session → Prop
  | [], _ => True
  | deed :: rest, s => deed.Allowed s.project ∧ Permitted rest (deed.step s)

/-- A project whose transforms are recorded, and of which no record is there yet. -/
structure Blank (project : Project) : Prop where
  seated : Seated project.root
  asked : project.settings.history = true
  empty : recordFiles project.disk (historyFolder project.root) = []

/-! ### What entries tell -/

/-- The entry tells of the transform what was asked for, and has the text of the one file that was edited, as the disk
held it just before. -/
def Tells (entry : Json.Members) (made : Made) : Prop :=
  ∃ request path text, Registry.Accepts made.type made.input request ∧
    path = made.before.resolve (editedFile request) ∧ Holds made.before path text ∧
    entry.lookup "transform_type" = some made.type ∧ entry.lookup "request_id" = some (.str request.id) ∧
    entry.lookup "files" = some (.arr [.str path.toText]) ∧
    entry.lookup patchesKey = some (.arr [.obj (Patch.members ⟨path, text⟩)])

/-- The history lists the transforms of the log, as many of the newest ones as are wanted, and leaves the project as
it is. -/
def Session.Faithful (s : Session) : Prop :=
  ∀ count : Int, 1 ≤ count → ∃ entries, s.project.perform (history (some count)) = (.ok entries, s.project) ∧
    List.Forall₂ Tells entries (s.log.take count.toNat)

/-- The note is that of the transform. -/
def Noting (note : Note) (made : Made) : Prop :=
  ∃ request text, Registry.Accepts made.type made.input request ∧
    Holds made.before (made.before.resolve (editedFile request)) text ∧
    note.record.Of request.change.kind request.id ∧
    note.record.Holding (made.before.resolve (editedFile request)) text

theorem Registry.Accepts.kind_eq {type input : Json} {request : Request} (accepted : Accepts type input request) :
    type = .str request.change.kind.name := by
  obtain ⟨kind, named, read⟩ := accepted
  rw [named, Wire.request_kind (Wire.Checked.result_eq_ok_iff.mp read)]

theorem tells_entry {note : Note} {made : Made} (noting : Noting note made) : Tells note.entry made := by
  obtain ⟨request, text, accepted, holds, told, holding⟩ := noting
  have lookup (key : String) (other : idKey ≠ key) :
      note.entry.lookup key = (note.record.members note.now).lookup key := by
    unfold Note.entry
    rw [Json.Members.lookup_insert, if_neg other]
  refine ⟨request, _, text, accepted, rfl, holds, ?_, ?_, ?_, ?_⟩
  · rw [lookup _ (by decide), accepted.kind_eq, ← told.kind]
    rfl
  · rw [lookup _ (by decide), ← told.requestId]
    rfl
  · rw [lookup _ (by decide)]
    have files : (note.record.members note.now).lookup "files" =
        some (.arr (note.record.patches.map fun patch => (patch.lookup fileKey).getD .null)) := rfl
    rw [files, holding.patches]
    rfl
  · rw [lookup _ (by decide)]
    have patches : (note.record.members note.now).lookup patchesKey =
        some (.arr (note.record.patches.map .obj)) := rfl
    rw [patches, holding.patches]
    rfl

/-! ### One deed -/

/-- The records of the project are those of the log. -/
def Session.Noted (s : Session) : Prop :=
  s.project.settings.history = true ∧ ∃ notes, Logged notes s.project ∧ List.Forall₂ Noting notes s.log

theorem Session.Noted.same {s : Session} {after : Project} (noted : s.Noted) (same : SameHistory s.project after) :
    Session.Noted ⟨after, s.log⟩ := by
  obtain ⟨asked, notes, logged, noting⟩ := noted
  exact ⟨same.settings ▸ asked, notes, logged.same same, noting⟩

/-- A transform is noted just if it succeeds. -/
theorem keeps_transform {s : Session} (noted : s.Noted) (writable : Writable s.project) (type input : Json) :
    ((Deed.transform type input).step s).Noted := by
  unfold Deed.step
  dsimp only
  rcases answered : Registry.standard.execute type input s.project with ⟨answer, after⟩
  have kept (same : SameHistory s.project after) (fails : Registry.Fails answer) :
      Session.Noted (match (answer, after) with
        | (.ok result, after) => ⟨after, if result.success then ⟨s.project, type, input⟩ :: s.log else s.log⟩
        | (.error _, after) => ⟨after, s.log⟩) := by
    cases answer with
    | error e => exact noted.same same
    | ok result =>
      dsimp only
      rw [if_neg (by rw [fails result rfl]; simp)]
      exact noted.same same
  obtain ⟨asked, notes, logged, noting⟩ := noted
  rcases Registry.execute_cases answered with
    ⟨-, same, fails⟩ | ⟨request, accepted, ⟨e, broken, fails⟩ | ⟨edited, result, done, rfl, success⟩⟩
  · exact kept (same ▸ .of_cache s.project s.project.cache) fails
  · exact kept (same_edit_error logged.seated broken) fails
  · dsimp only
    rw [if_pos success]
    obtain ⟨note, text, logged', settings, told, holding, holds⟩ := logged.edit writable asked done
    have noted' : Noting note ⟨s.project, type, input⟩ := ⟨request, text, accepted, holds, told, holding⟩
    exact ⟨settings ▸ asked, note :: notes, logged', .cons noted' noting⟩

/-- What is done once keeps the history true. -/
theorem Deed.keeps {s : Session} (noted : s.Noted) {deed : Deed} (allowed : deed.Allowed s.project) :
    (deed.step s).Noted := by
  cases deed with
  | transform type input => exact keeps_transform noted allowed type input
  | undo id =>
    refine noted.same ?_
    obtain ⟨asked, notes, logged, noting⟩ := noted
    refine same_undo logged.seated ?_
    by_cases far : '/' ∈ id.toList
    · exact allowed far
    · exact logged.trusted far
  | clear keep =>
    obtain ⟨asked, notes, logged, noting⟩ := noted
    obtain ⟨disk, done, logged'⟩ := logged.clear allowed
    unfold step
    dsimp only
    rw [done]
    exact ⟨asked, _, logged', List.forall₂_take _ noting⟩
  | meanwhile disk cache now => exact noted.same allowed

/-! ### Everything that is done -/

theorem Session.Noted.faithful {s : Session} (noted : s.Noted) : s.Faithful := by
  obtain ⟨asked, notes, logged, noting⟩ := noted
  intro count wanted
  refine ⟨_, logged.history_run wanted, ?_⟩
  rw [List.forall₂_map_left_iff]
  exact (List.forall₂_take _ noting).imp fun _ _ => tells_entry

theorem run_noted {s : Session} (noted : s.Noted) {deeds : List Deed} (permitted : Permitted deeds s) :
    (run deeds s).Noted := by
  induction deeds generalizing s with
  | nil => exact noted
  | cons deed rest ih => exact ih (Deed.keeps noted permitted.1) permitted.2

theorem Blank.noted {project : Project} (blank : Blank project) : Session.Noted ⟨project, []⟩ := by
  refine ⟨blank.asked, [], ⟨blank.seated, ?_, blank.empty, ?_, ?_, ?_, .nil, .nil⟩, .nil⟩
  all_goals exact fun note member => absurd member List.not_mem_nil

/-- Whatever is done in turn with a project whose transforms are recorded, its history lists the transforms that were
made and not cleared since, newest first; and to clear it gives the number of those that are not kept, and leaves a
history that lists those that are. -/
theorem run_faithful {project : Project} (blank : Blank project) {deeds : List Deed}
    (permitted : Permitted deeds ⟨project, []⟩) :
    (run deeds ⟨project, []⟩).Faithful ∧
      ∀ keep : Int, 0 ≤ keep → ∃ after,
        (run deeds ⟨project, []⟩).project.perform (clearHistory keep) =
          (.ok ((run deeds ⟨project, []⟩).log.drop keep.toNat).length, after) ∧
        Session.Faithful ⟨after, (run deeds ⟨project, []⟩).log.take keep.toNat⟩ := by
  have noted := run_noted blank.noted permitted
  refine ⟨noted.faithful, fun keep nonneg => ?_⟩
  obtain ⟨asked, notes, logged, noting⟩ := noted
  obtain ⟨disk, done, logged'⟩ := logged.clear nonneg
  have kept : Session.Noted ⟨{ (run deeds ⟨project, []⟩).project with disk },
      (run deeds ⟨project, []⟩).log.take keep.toNat⟩ := ⟨asked, _, logged', List.forall₂_take _ noting⟩
  refine ⟨_, ?_, kept.faithful⟩
  rw [done, (List.forall₂_drop _ noting).length_eq]

/-! ### A page that is edited -/

/-- A request to put another letter into the first element of a page. -/
def letterRequest (prior new : String) : Json :=
  .obj [("id", .str "1"),
    ("target", .obj [("file", .str "a.tsx"), ("lineNumber", .int 1), ("column", .int 1)]),
    ("change", .obj [("originalText", .str prior), ("newText", .str new)])]

/-- The page is changed by another hand; a transform fails, another one is made, and that is undone. -/
def letterDeeds : List Deed :=
  [.meanwhile ((pageProject lineText).disk.write ["page", "a.tsx"] (Text.Utf8.encode "<p>w</p>;".toList)) {} "later",
    .transform (.str "text-update") (letterRequest "y" "z"), .transform (.str "text-update") (letterRequest "w" "x"),
    .undo "tx1"]

private theorem writable_of_checks {project : Project}
    (checks : ((project.disk.makeFolders (historyFolder project.root)).toOption.isSome &&
      (recordFile project (transactionId (project.recorded + 1))).names.all fun name =>
        decide (name.utf8ByteSize ≤ Files.Disk.nameLimit)) = true) : Writable project := by
  obtain ⟨made, short⟩ := Bool.and_eq_true_iff.mp checks
  refine ⟨?_, fun name member => of_decide_eq_true (List.all_eq_true.mp short name member)⟩
  cases outcome : project.disk.makeFolders (historyFolder project.root) with
  | ok disk => exact ⟨disk, rfl⟩
  | error e => simp [outcome, Except.toOption] at made

theorem run_faithful_letters :
    (run letterDeeds ⟨pageProject lineText, []⟩).log.length = 1 ∧
      (run letterDeeds ⟨pageProject lineText, []⟩).Faithful ∧
      ∃ after, (run letterDeeds ⟨pageProject lineText, []⟩).project.perform (clearHistory 0) = (.ok 1, after) := by
  have none : recordFiles (pageProject lineText).disk (historyFolder (pageProject lineText).root) = [] :=
    List.isEmpty_iff.mp (by decide +kernel)
  have blank : Blank (pageProject lineText) :=
    ⟨⟨⟨by decide, fun name member => Files.Path.name_of_ofText member⟩, by decide⟩, rfl, none⟩
  have permitted : Permitted letterDeeds ⟨pageProject lineText, []⟩ := by
    refine ⟨⟨rfl, rfl, rfl, rfl, ?_, fun file member => ?_, by decide⟩, ?_, ?_, fun far => ?_, trivial⟩
    · rw [none]
      exact List.isEmpty_iff.mp (by decide +kernel)
    · rw [none] at member
      cases member
    · exact writable_of_checks (by decide +kernel)
    · exact writable_of_checks (by decide +kernel)
    · exact absurd far (by decide)
  have length : (run letterDeeds ⟨pageProject lineText, []⟩).log.length = 1 := by decide +kernel
  obtain ⟨faithful, cleared⟩ := run_faithful blank permitted
  refine ⟨length, faithful, ?_⟩
  obtain ⟨after, done, -⟩ := cleared 0 (by decide)
  rw [List.length_drop, length] at done
  exact ⟨after, done⟩

end Retouch.Service
