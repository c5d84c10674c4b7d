import Retouch.Proofs.Project.Perform

/-!
# Actions that do not look at the cache

Most of what an edit does is the same whatever the cache holds. Reading the source of a file and writing it
do not even change the cache; an edit as a whole changes it, but without looking at it once its file is
loaded. Both properties are kept when actions follow each other or are tried, so that only the two actions
that load a file have to be looked at with the cache in mind.

## Main statements

* `blind_write`, `blind_record`: writing a file and recording what it held have no part in the cache.
* `oblivious_commit`, `oblivious_undo`: what an edit ends with, and restoring the texts of a record, do not
  depend on the cache.
-/
namespace Retouch.Project

variable {α β : Type}

/-! ### Blind actions -/

/-- The action neither looks at the cache nor changes it. -/
def Blind (action : Action α) : Prop :=
  ∀ (project : Project) (cache : Cache),
    { project with cache }.perform action =
      ((project.perform action).1, { (project.perform action).2 with cache })

namespace Blind

/-- A blind action leaves the cache as it is. -/
theorem cache_eq {action : Action α} (blind : Blind action) (project : Project) :
    (project.perform action).2.cache = project.cache :=
  congrArg (fun outcome => outcome.2.cache) (blind project project.cache)

theorem pure (a : α) : Blind (Pure.pure a : Action α) := fun _ _ => rfl

theorem throw (e : ProjectError) : Blind (throw e : Action α) := fun _ _ => rfl

theorem refuse (code : ErrorCode) (message : String) (details : Option Json.Members) :
    Blind (refuse code message details : Action α) := throw _

theorem lift {ε : Type} (wrap : ε → ProjectError) (outcome : Except ε α) : Blind (lift wrap outcome) := by
  cases outcome with
  | ok a => exact pure a
  | error e => exact throw (wrap e)

theorem bind {first : Action α} {next : α → Action β} (early : Blind first) (late : ∀ a, Blind (next a)) :
    Blind (first >>= next) := by
  intro project cache
  rw [perform_bind, perform_bind, early project cache]
  rcases project.perform first with ⟨e | a, after⟩
  · rfl
  · exact late a after cache

/-- What is read of the project is not its cache. -/
theorem get_bind {next : Project → Action β}
    (blind : ∀ project cache, next { project with cache } = next project)
    (late : ∀ project, Blind (next project)) : Blind (get >>= next) := by
  intro project cache
  rw [perform_bind_ok _ (perform_get _), perform_bind_ok _ (perform_get _), blind]
  exact late project project cache

theorem ite {condition : Prop} [Decidable condition] {first second : Action α} (one : Blind first)
    (other : Blind second) : Blind (if condition then first else second) := by
  split
  · exact one
  · exact other

theorem guard {reason : Prop} [Decidable reason] {stop : Action α} {rest : Action β}
    (early : Blind stop) (late : Blind rest) :
    Blind (if reason then stop >>= fun _ => rest else rest) :=
  .ite (.bind early fun _ => late) late

theorem tryCatch {action : Action α} {handle : ProjectError → Action α} (early : Blind action)
    (late : ∀ e, Blind (handle e)) : Blind (tryCatch action handle) := by
  intro project cache
  rw [perform_try, perform_try, early project cache]
  rcases project.perform action with ⟨e | a, after⟩
  · exact late e after cache
  · rfl

end Blind

/-! ### Oblivious actions -/

/-- The outcome of the action, and what it leaves but for the cache, do not depend on the cache. -/
def Oblivious (action : Action α) : Prop :=
  ∀ (project : Project) (cache : Cache),
    ({ project with cache }.perform action).1 = (project.perform action).1 ∧
      ({ project with cache }.perform action).2.reopened = (project.perform action).2.reopened

theorem Blind.oblivious {action : Action α} (blind : Blind action) : Oblivious action := by
  intro project cache
  rw [blind project cache]
  exact ⟨rfl, rfl⟩

namespace Oblivious

/-- Projects over the same files differ in their caches only. -/
theorem eq_of_reopened {first second : Project} (same : first.reopened = second.reopened) :
    first = { second with cache := first.cache } := by
  cases first
  cases second
  simp only [reopened, Project.mk.injEq] at same ⊢
  exact same

/-- Two projects over the same files have the same outcome, and are over the same files again. -/
theorem alike {action : Action α} (oblivious : Oblivious action) {first second : Project}
    (same : first.reopened = second.reopened) :
    (first.perform action).1 = (second.perform action).1 ∧
      (first.perform action).2.reopened = (second.perform action).2.reopened := by
  rw [eq_of_reopened same]
  exact oblivious second first.cache

theorem modifyCache (change : Cache → Cache) : Oblivious (modifyCache change) := fun _ _ => ⟨rfl, rfl⟩

theorem bind {first : Action α} {next : α → Action β} (early : Oblivious first)
    (late : ∀ a, Oblivious (next a)) : Oblivious (first >>= next) := by
  intro project cache
  have start := early project cache
  rw [perform_bind, perform_bind]
  rcases outcome : project.perform first with ⟨e | a, after⟩ <;>
    rcases outcome' : ({ project with cache } : Project).perform first with ⟨e' | a', after'⟩ <;>
    simp only [outcome, outcome', Except.error.injEq, Except.ok.injEq, reduceCtorEq, false_and] at start
  · obtain ⟨rfl, same⟩ := start
    exact ⟨rfl, same⟩
  · obtain ⟨rfl, same⟩ := start
    exact (late a').alike same

/-- What is read of the project is not its cache. -/
theorem get_bind {next : Project → Action β}
    (blind : ∀ project cache, next { project with cache } = next project)
    (late : ∀ project, Oblivious (next project)) : Oblivious (get >>= next) := by
  intro project cache
  rw [perform_bind_ok _ (perform_get _), perform_bind_ok _ (perform_get _), blind]
  exact late project project cache

theorem tryCatch {action : Action α} {handle : ProjectError → Action α} (early : Oblivious action)
    (late : ∀ e, Oblivious (handle e)) : Oblivious (tryCatch action handle) := by
  intro project cache
  have start := early project cache
  rw [perform_try, perform_try]
  rcases outcome : project.perform action with ⟨e | a, after⟩ <;>
    rcases outcome' : ({ project with cache } : Project).perform action with ⟨e' | a', after'⟩ <;>
    simp only [outcome, outcome', Except.error.injEq, Except.ok.injEq, reduceCtorEq, false_and] at start
  · obtain ⟨rfl, same⟩ := start
    exact (late e').alike same
  · obtain ⟨rfl, same⟩ := start
    exact ⟨rfl, same⟩

end Oblivious

/-! ### Reading -/

theorem blind_locate (file : String) : Blind (locate file) := by
  unfold locate
  refine .get_bind (fun _ _ => rfl) fun project => ?_
  refine .guard (.throw _) ?_
  dsimp only
  split
  · exact .pure _
  · exact .refuse _ _ _

theorem blind_decode (bytes : Text.Bytes) : Blind (decode bytes) := by
  unfold decode
  refine .get_bind (fun _ _ => rfl) fun project => ?_
  dsimp only
  split
  · exact .pure _
  · exact .throw _

theorem blind_readSource (file : String) : Blind (readSource file) := by
  unfold readSource
  refine .bind (blind_locate file) fun path => .get_bind (fun _ _ => rfl) fun project => ?_
  refine .bind (.lift _ _) fun isFile => .guard (.refuse _ _ _) ?_
  split
  · exact .refuse _ _ _
  · refine .bind (blind_decode _) fun text => ?_
    split
    · exact .refuse _ _ _
    · exact .pure _

theorem blind_requireSound (before after : Bool) (file : String) :
    Blind (requireSound before after file) := by
  unfold requireSound
  split
  · exact .refuse _ _ _
  · exact .pure _

theorem blind_targetSelector (target : SourceLocator) : Blind (targetSelector target) := by
  unfold targetSelector
  split
  · exact .pure _
  · exact .refuse _ _ _

theorem blind_ofOutcome (outcome : Sheet.Outcome α) : Blind (ofOutcome outcome) := by
  unfold ofOutcome
  split
  · exact .pure _
  · exact .throw _
  · exact .throw _

/-! ### Writing -/

theorem blind_readCurrent (path : Files.Path) : Blind (readCurrent path) := by
  unfold readCurrent
  refine .guard (.throw _) (.get_bind (fun _ _ => rfl) fun project => ?_)
  split
  · exact .refuse _ _ _
  · refine .bind (blind_decode _) fun text => ?_
    split
    · exact .refuse _ _ _
    · exact .pure _

theorem blind_backUp (path : Files.Path) (bytes : Text.Bytes) : Blind (backUp path bytes) := by
  intro project cache
  unfold backUp
  rw [perform_bind_ok _ (perform_get _), perform_bind_ok _ (perform_get _)]
  dsimp only
  split
  · rfl
  · split
    · rfl
    · rfl

theorem blind_prepareWrite (path : Files.Path) (expected : Option (List Char)) :
    Blind (prepareWrite path expected) := by
  unfold prepareWrite
  refine .bind (blind_readCurrent path) fun (bytes, current) => ?_
  have copying : Blind (get >>= fun project : Project =>
      if project.settings.backups then backUp path bytes >>= fun copied => pure (current, copied)
      else pure false >>= fun copied => pure (current, copied)) := by
    refine .get_bind (fun _ _ => rfl) fun project => ?_
    split
    · exact .bind (blind_backUp path bytes) fun _ => .pure _
    · exact .bind (.pure _) fun _ => .pure _
  dsimp only
  split
  · exact .guard (.refuse _ _ _) copying
  · exact copying

theorem blind_replaceFile (path : Files.Path) (content : List Char) :
    Blind (replaceFile path content) := by
  intro project cache
  unfold replaceFile
  rw [perform_bind_ok _ (perform_get _), perform_bind_ok _ (perform_get _)]
  dsimp only
  cases project.disk.locate path with
  | error fault => rfl
  | ok place =>
    rw [lift, perform_bind_ok _ (perform_pure _ _), perform_bind_ok _ (perform_pure _ _)]
    split
    · rfl
    · split
      · rfl
      · split
        · rfl
        · rfl

theorem blind_write (path : Files.Path) (content : List Char) (expected : Option (List Char)) :
    Blind (write path content expected) := by
  unfold write
  refine .bind (blind_prepareWrite path expected) fun (current, copied) => ?_
  exact .bind (blind_replaceFile path _) fun _ => .pure _

theorem blind_record (r : Record) : Blind (record r) := by
  intro project cache
  unfold record
  rw [perform_bind_ok _ (perform_get _), perform_bind_ok _ (perform_get _)]
  dsimp only
  split
  · rfl
  · rfl

/-! ### Restoring what was recorded -/

theorem blind_readRecord? (path : Files.Path) : Blind (readRecord? path) := by
  unfold readRecord?
  refine .get_bind (fun _ _ => rfl) fun project => ?_
  split
  · exact .pure _
  · refine .bind (.lift _ _) fun text => ?_
    split
    · exact .pure _
    · exact .throw _
    · split
      · exact .throw _
      · exact .throw _
      · exact .pure _

theorem blind_transaction? (id : String) : Blind (transaction? id) := by
  unfold transaction?
  refine .get_bind (fun _ _ => rfl) fun project => ?_
  refine .bind (.lift _ _) fun found => ?_
  split
  · exact .pure _
  · exact .bind (blind_readRecord? _) fun _ => .pure _

theorem blind_applyPatch (file content : Json) : Blind (applyPatch file content) := by
  unfold applyPatch
  split
  · refine .tryCatch ?_ fun e => ?_
    · split
      · exact .bind (blind_write _ _ _) fun _ => .pure _
      · exact .bind (blind_prepareWrite _ _) fun _ => .throw _
    · split
      · exact .pure _
      · exact .throw _
  · exact .throw _

theorem blind_applyPatches (patches : List Json) (done : Undone) :
    Blind (applyPatches patches done) := by
  induction patches generalizing done with
  | nil => exact .pure _
  | cons patch rest ih =>
    cases patch with
    | obj members =>
      unfold applyPatches
      refine .ite (ih _) (.bind (blind_applyPatch _ _) fun error => ?_)
      split
      · exact ih _
      · exact ih _
    | _ => exact .throw _

/-! ### Changing the cache without looking at it -/

theorem oblivious_commit (file : String) (path : Files.Path) (before content : List Char) (parsed : α)
    (keep : Cached α → Cache → Cache) (kind : TransformKind) (requestId : String)
    (metadata : Json.Members) :
    Oblivious (commit file path before content parsed keep kind requestId metadata) := by
  unfold commit
  refine .bind (blind_write _ _ _).oblivious fun (written, copied) => ?_
  refine .bind (.modifyCache _) fun _ => .get_bind (fun _ _ => rfl) fun project => Blind.oblivious ?_
  dsimp only
  split
  · exact .bind (blind_record _) fun _ => .pure _
  · exact .bind (.pure _) fun _ => .pure _

private theorem record_run (project : Project) (r : Record) :
    ∃ transaction after, project.perform (record r) = (.ok transaction, after) ∧
      after.cache = project.cache := by
  obtain ⟨transaction, after, recorded⟩ := completes_record r project
  have same := (blind_record r).cache_eq project
  rw [recorded] at same
  exact ⟨transaction, after, recorded, same⟩

/-- An edit ends with its write: nothing fails behind it, and the text is kept as it was written. -/
theorem commit_cases (project : Project) (file : String) (path : Files.Path) (before content : List Char)
    (parsed : α) (keep : Cached α → Cache → Cache) (kind : TransformKind) (requestId : String)
    (metadata : Json.Members) :
    (∃ e after, project.perform (write path content (some before)) = (.error e, after) ∧
      project.perform (commit file path before content parsed keep kind requestId metadata) =
        (.error e, after)) ∨
    ∃ written copied middle edited after,
      project.perform (write path content (some before)) = (.ok (written, copied), middle) ∧
      project.perform (commit file path before content parsed keep kind requestId metadata) =
        (.ok edited, after) ∧
      edited.content = written ∧ after.cache = keep ⟨written, parsed⟩ project.cache := by
  have kept := (blind_write path content (some before)).cache_eq project
  unfold commit
  rcases outcome : project.perform (write path content (some before)) with ⟨e | ⟨written, copied⟩, middle⟩
  · exact .inl ⟨e, middle, rfl, perform_bind_error project outcome⟩
  · right
    rw [outcome] at kept
    rw [perform_bind_ok project outcome]
    dsimp only
    rw [perform_bind_ok _ (perform_modifyCache _ _), perform_bind_ok _ (perform_get _)]
    dsimp only at kept ⊢
    rw [← kept]
    split
    · obtain ⟨transaction, after, recorded, same⟩ := record_run
        { middle with cache := keep ⟨written, parsed⟩ middle.cache }
        { kind := kind.name, requestId, patches := [Patch.members ⟨path, before⟩], metadata }
      exact ⟨written, copied, middle, _, after, rfl, perform_bind_ok _ recorded, rfl, same⟩
    · exact ⟨written, copied, middle, _, _, rfl, perform_bind_ok _ (perform_pure _ _), rfl, rfl⟩

theorem oblivious_forget (names : List String) : Oblivious (forget names) := by
  induction names with
  | nil => exact (Blind.pure _).oblivious
  | cons name rest ih =>
    unfold forget
    exact .get_bind (fun _ _ => rfl) fun project => .bind (.modifyCache _) fun _ => ih

theorem oblivious_undo (id : String) : Oblivious (undo id) := by
  unfold undo
  refine .bind (blind_transaction? id).oblivious fun found => ?_
  split
  · exact (Blind.pure _).oblivious
  · refine .bind (Blind.lift _ _).oblivious fun patches => ?_
    refine .bind (blind_applyPatches _ _).oblivious fun done => ?_
    exact .bind (oblivious_forget _) fun _ => (Blind.pure _).oblivious

end Retouch.Project
