import Retouch.Proofs.Project.Perform

/-!
# What actions do to a project

What an action may do to a project is told by a relation between the project before and the one afterwards. A
relation that says nothing of the cache, and holds of two steps when it holds of each, is kept by all actions that
only read; an edit keeps it when its copies and its write do.

## Main statements

* `Frame.readCurrent`, `Frame.loadDocument` and `Frame.loadSheet`: reading keeps to every such relation.
* `Frame.failing_edit`: a failed edit keeps to it when copies do and a file that is not replaced does.
-/
namespace Retouch.Project

variable {α β : Type} {R : Project → Project → Prop} {project last : Project}

/-- A relation between states that says nothing of the cache. -/
structure Frame (R : Project → Project → Prop) : Prop where
  cache : ∀ (project : Project) (cache : Cache), R project { project with cache }
  trans : ∀ {first second third : Project}, R first second → R second third → R first third

/-- The action leads from each project to one that stands in the relation to it. -/
def Within (R : Project → Project → Prop) (action : Action α) : Prop :=
  ∀ project : Project, R project (project.perform action).2

/-- The action does so when it fails. -/
def WithinFailing (R : Project → Project → Prop) (action : Action α) : Prop :=
  ∀ (project : Project) (e : ProjectError) (after : Project), project.perform action = (.error e, after) →
    R project after

theorem Within.related {action : Action α} (within : Within R action) {outcome : Except ProjectError α}
    (done : project.perform action = (outcome, last)) : R project last := by
  have whole := within project
  rwa [done] at whole

namespace Frame

theorem refl (frame : Frame R) (project : Project) : R project project := frame.cache project project.cache

/-! ### How such actions are built -/

theorem pure (frame : Frame R) (a : α) : Within R (Pure.pure a : Action α) := frame.refl

theorem throw (frame : Frame R) (e : ProjectError) : Within R (throw e : Action α) := frame.refl

theorem refuse (frame : Frame R) (code : ErrorCode) (message : String) (details : Option Json.Members) :
    Within R (refuse code message details : Action α) := frame.throw _

theorem get (frame : Frame R) : Within R (get : Action Project) := frame.refl

theorem modifyCache (frame : Frame R) (change : Cache → Cache) : Within R (modifyCache change) :=
  fun project => frame.cache project _

theorem lift (frame : Frame R) {ε : Type} (wrap : ε → ProjectError) (outcome : Except ε α) :
    Within R (lift wrap outcome) := by
  cases outcome with
  | ok a => exact frame.pure a
  | error e => exact frame.throw (wrap e)

/-- An action that leads from a project to one in the relation to it comes before one that always does. -/
theorem bind_at (frame : Frame R) {first : Action α} {next : α → Action β} (early : R project (project.perform first).2)
    (late : ∀ a, Within R (next a)) : R project (project.perform (first >>= next)).2 := by
  rw [perform_bind]
  rcases outcome : project.perform first with ⟨e | a, middle⟩
  · rw [outcome] at early
    exact early
  · rw [outcome] at early
    exact frame.trans early (late a middle)

/-- What is done when such an action has failed. -/
theorem try_at (frame : Frame R) {action : Action α} {handle : ProjectError → Action α}
    (early : R project (project.perform action).2) (late : ∀ e, Within R (handle e)) :
    R project (project.perform (tryCatch action handle)).2 := by
  rw [perform_try]
  rcases outcome : project.perform action with ⟨e | a, middle⟩
  · rw [outcome] at early
    exact frame.trans early (late e middle)
  · rw [outcome] at early
    exact early

theorem bind (frame : Frame R) {first : Action α} {next : α → Action β} (early : Within R first)
    (late : ∀ a, Within R (next a)) : Within R (first >>= next) :=
  fun project => frame.bind_at (early project) late

theorem guard (frame : Frame R) {reason : Prop} [Decidable reason] {stop : Action α} {rest : Action β}
    (early : Within R stop) (late : Within R rest) :
    Within R (if reason then stop >>= fun _ => rest else rest) := by
  split
  · exact frame.bind early fun _ => late
  · exact late

/-- An action that keeps to the relation comes before one that does so when it fails. -/
theorem failing_bind (frame : Frame R) {first : Action α} {next : α → Action β} (early : Within R first)
    (late : ∀ a, WithinFailing R (next a)) : WithinFailing R (first >>= next) := by
  intro project e after failed
  rcases perform_bind_eq_error project failed with stopped | ⟨a, middle, done, failed⟩
  · exact early.related stopped
  · exact frame.trans (early.related done) (late a middle e after failed)

/-- What is done when an action has failed. -/
theorem failing_try (frame : Frame R) {action : Action α} {handle : ProjectError → Action α}
    (early : WithinFailing R action) (late : ∀ e, Within R (handle e)) :
    WithinFailing R (tryCatch action handle) := by
  intro project e after failed
  rw [perform_try] at failed
  rcases outcome : project.perform action with ⟨e' | a, middle⟩
  · simp only [outcome] at failed
    exact frame.trans (early project e' middle outcome) ((late e').related failed)
  · simp [outcome] at failed

end Frame

/-- What cannot fail may come last. -/
theorem WithinFailing.before_completes {first : Action α} {next : α → Action β} (early : WithinFailing R first)
    (late : ∀ a, Completes (next a)) : WithinFailing R (first >>= next) := by
  intro project e after failed
  rcases perform_bind_eq_error project failed with stopped | ⟨a, middle, done, failed⟩
  · exact early project e after stopped
  · obtain ⟨b, last, completed⟩ := late a middle
    rw [completed] at failed
    cases failed

namespace Frame

/-! ### Reading -/

theorem locate (frame : Frame R) (file : String) : Within R (locate file) := by
  unfold Project.locate
  refine frame.bind frame.get fun project => frame.guard (frame.throw _) ?_
  dsimp only
  split
  · exact frame.pure _
  · exact frame.refuse _ _ _

theorem decode (frame : Frame R) (bytes : Text.Bytes) : Within R (decode bytes) := by
  unfold Project.decode
  refine frame.bind frame.get fun project => ?_
  dsimp only
  split
  · exact frame.pure _
  · exact frame.throw _

theorem readSource (frame : Frame R) (file : String) : Within R (readSource file) := by
  unfold Project.readSource
  refine frame.bind (frame.locate file) fun path => frame.bind frame.get fun project => ?_
  refine frame.bind (frame.lift _ _) fun isFile => frame.guard (frame.refuse _ _ _) ?_
  split
  · exact frame.refuse _ _ _
  · refine frame.bind (frame.decode _) fun text => ?_
    split
    · exact frame.refuse _ _ _
    · exact frame.pure _

theorem loadDocument (frame : Frame R) (file : String) : Within R (loadDocument file) := by
  unfold Project.loadDocument
  split
  · exact frame.refuse _ _ _
  · refine frame.bind (frame.readSource file) fun (path, text) => frame.bind frame.get fun project => ?_
    dsimp only
    split <;> exact frame.bind (frame.modifyCache _) fun _ => frame.pure _

theorem loadSheet (frame : Frame R) (file : String) : Within R (loadSheet file) := by
  unfold Project.loadSheet
  refine frame.guard (frame.refuse _ _ _) (frame.guard (frame.refuse _ _ _) ?_)
  refine frame.bind (frame.readSource file) fun (path, text) => frame.bind frame.get fun project => ?_
  dsimp only
  split <;> exact frame.bind (frame.modifyCache _) fun _ => frame.pure _

theorem requireSound (frame : Frame R) (before after : Bool) (file : String) :
    Within R (requireSound before after file) := by
  unfold Project.requireSound
  split
  · exact frame.refuse _ _ _
  · exact frame.pure _

theorem targetSelector (frame : Frame R) (target : SourceLocator) : Within R (targetSelector target) := by
  unfold Project.targetSelector
  split
  · exact frame.pure _
  · exact frame.refuse _ _ _

theorem ofOutcome (frame : Frame R) (outcome : Sheet.Outcome α) : Within R (ofOutcome outcome) := by
  unfold Project.ofOutcome
  split
  · exact frame.pure _
  · exact frame.throw _
  · exact frame.throw _

theorem readCurrent (frame : Frame R) (path : Files.Path) : Within R (readCurrent path) := by
  unfold Project.readCurrent
  refine frame.guard (frame.throw _) (frame.bind frame.get fun project => ?_)
  split
  · exact frame.refuse _ _ _
  · refine frame.bind (frame.decode _) fun text => ?_
    split
    · exact frame.refuse _ _ _
    · exact frame.pure _

theorem readRecord? (frame : Frame R) (path : Files.Path) : Within R (readRecord? path) := by
  unfold Project.readRecord?
  refine frame.bind frame.get fun project => ?_
  split
  · exact frame.pure _
  · refine frame.bind (frame.lift _ _) fun text => ?_
    split
    · exact frame.pure _
    · exact frame.throw _
    · split
      · exact frame.throw _
      · exact frame.throw _
      · exact frame.pure _

theorem transaction? (frame : Frame R) (id : String) : Within R (transaction? id) := by
  unfold Project.transaction?
  refine frame.bind frame.get fun project => frame.bind (frame.lift _ _) fun found => ?_
  split
  · exact frame.pure _
  · exact frame.bind (frame.readRecord? _) fun _ => frame.pure _

/-! ### Writing -/

theorem prepareWrite (frame : Frame R) {path : Files.Path} (copies : ∀ bytes, Within R (backUp path bytes))
    (expected : Option (List Char)) : Within R (prepareWrite path expected) := by
  unfold Project.prepareWrite
  refine frame.bind (frame.readCurrent path) fun (bytes, current) => ?_
  have copying : Within R (MonadState.get >>= fun project : Project =>
      if project.settings.backups then backUp path bytes >>= fun copied => Pure.pure (current, copied)
      else Pure.pure false >>= fun copied => Pure.pure (current, copied)) := by
    refine frame.bind frame.get fun project => ?_
    split
    · exact frame.bind (copies bytes) fun _ => frame.pure _
    · exact frame.bind (frame.pure _) fun _ => frame.pure _
  dsimp only
  split
  · exact frame.guard (frame.refuse _ _ _) copying
  · exact copying

theorem failing_write (frame : Frame R) {path : Files.Path} (copies : ∀ bytes, Within R (backUp path bytes))
    (drafts : ∀ content, WithinFailing R (replaceFile path content)) (content : List Char)
    (expected : Option (List Char)) : WithinFailing R (write path content expected) := by
  unfold Project.write
  refine frame.failing_bind (frame.prepareWrite copies expected) fun (current, copied) => ?_
  exact (drafts _).before_completes fun _ => .pure _

/-! ### Edits -/

section edits

variable (copies : ∀ path bytes, Within R (backUp path bytes))
  (drafts : ∀ path content, WithinFailing R (replaceFile path content))
include copies drafts

theorem failing_commit (frame : Frame R) (file : String) (path : Files.Path) (before content : List Char)
    (parsed : α) (keep : Cached α → Cache → Cache) (kind : TransformKind) (requestId : String)
    (metadata : Json.Members) :
    WithinFailing R (commit file path before content parsed keep kind requestId metadata) := by
  unfold Project.commit
  refine (frame.failing_write (copies path) (drafts path) content (some before)).before_completes fun written => ?_
  refine .bind (.modifyCache _) fun _ => .bind .get fun project => ?_
  split
  · exact .bind (completes_record _) fun _ => .pure _
  · exact .bind (.pure _) fun _ => .pure _

theorem failing_updateText (frame : Frame R) (target : SourceLocator) (prior new requestId : String) :
    WithinFailing R (updateText target prior new requestId) := by
  unfold Project.updateText
  refine frame.failing_bind (frame.loadDocument _) fun (path, kept) => ?_
  refine frame.failing_bind (frame.lift _ _) fun updated => ?_
  refine frame.failing_bind (frame.requireSound _ _ _) fun _ => ?_
  exact frame.failing_commit copies drafts _ _ _ _ _ _ _ _ _

theorem failing_editSheet (frame : Frame R) (target : SourceLocator) (kind : TransformKind) (requestId : String)
    (edit : SheetEdit) : WithinFailing R (editSheet target kind requestId edit) := by
  unfold Project.editSheet
  refine frame.failing_bind (frame.targetSelector _) fun selector => ?_
  refine frame.failing_bind (frame.loadSheet _) fun (path, kept) => ?_
  refine frame.failing_try ?_ fun e => frame.guard (frame.modifyCache _) (frame.throw _)
  refine frame.failing_bind (frame.modifyCache _) fun _ => frame.failing_bind (frame.ofOutcome _) fun previous => ?_
  refine frame.failing_bind (frame.requireSound _ _ _) fun _ => ?_
  exact (frame.failing_commit copies drafts _ _ _ _ _ _ _ _ _).before_completes fun _ => .pure _

/-- A failed edit keeps to the relation when copies do and a file that is not replaced does. -/
theorem failing_edit (frame : Frame R) (request : Request) : WithinFailing R (edit request) := by
  unfold Project.edit
  cases request.change with
  | textUpdate prior new => exact frame.failing_updateText copies drafts _ _ _ _
  | _ => exact frame.failing_editSheet copies drafts _ _ _ _

end edits

end Frame

end Retouch.Project
