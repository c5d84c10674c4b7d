import Retouch.Proofs.Project.Oblivious
import Retouch.Proofs.Project.Perform
import Retouch.Proofs.Project.Untouched

/-!
# Edits that fail

An edit fails before its write, for many reasons, or in its write, when the encoding of the project has no
bytes for the text. In the first case the project is untouched. In the second case the draft of the file
stays next to it, which is a new file unless the whole happens among the copies.

## Main statement

* `tidy_edit`: a failed edit leaves the project untouched, unless it failed for want of bytes outside the
  folder of copies.

## Proof strategy

`Tidy` says this of an action. It holds of `replaceFile`, it is kept by safe actions in front and by
actions that cannot fail behind, and every edit is built in this way.
-/
namespace Retouch.Project

variable {α β : Type}

/-- Whether an error says that a text has no bytes. -/
def IsUnencodable (e : ProjectError) : Prop := ∃ fault, e = .unencodable fault

/-- Whether the encoding of files has bytes for some characters only. -/
def IsNarrow (settings : Settings) : Prop :=
  Files.Encoding.ofName? settings.encoding = some .latin1 ∨
    Files.Encoding.ofName? settings.encoding = some .ascii

/-- What a failure may do to a project: only the want of bytes leaves something, only under a narrow
encoding, and only where it happens outside the folder of copies. -/
structure TidyFailure (before : Project) (place : Files.Place) (e : ProjectError) (after : Project) : Prop
    where
  untouched_iff : Untouched before after ↔ (IsUnencodable e → InBackups before.root place)
  narrow : IsUnencodable e → IsNarrow before.settings

/-- When the action fails, it fails tidily for the file of a path. -/
def Tidy (path : Files.Path) (action : Action α) : Prop :=
  ∀ (project : Project) (e : ProjectError) (after : Project),
    project.perform action = (.error e, after) → TidyFailure project (project.disk.aim path) e after

/-! ### How tidy actions are built -/

theorem TidyFailure.of_untouched {before after : Project} {e : ProjectError} (place : Files.Place)
    (untouched : Untouched before after) (other : ∀ fault, e ≠ .unencodable fault) :
    TidyFailure before place e after where
  untouched_iff := iff_of_true untouched fun ⟨fault, same⟩ => absurd same (other fault)
  narrow := fun ⟨fault, same⟩ => absurd same (other fault)

theorem TidyFailure.after_untouched {before middle after : Project} {place : Files.Place} {e : ProjectError}
    (early : Untouched before middle) (late : TidyFailure middle place e after) :
    TidyFailure before place e after where
  untouched_iff := by rw [early.trans_iff, late.untouched_iff, early.root]
  narrow unencodable := early.settings ▸ late.narrow unencodable

theorem Safe.tidyFailure {action : Action α} (safe : Safe action) {project after : Project}
    {e : ProjectError} (place : Files.Place) (failed : project.perform action = (.error e, after)) :
    TidyFailure project place e after := by
  obtain ⟨untouched, other⟩ := safe project
  rw [failed] at untouched other
  exact .of_untouched place untouched fun fault same => other fault (congrArg _ same)

/-- What is safe may come first. -/
theorem Tidy.after_safe {path : Files.Path} {first : Action α} {next : α → Action β} (early : Safe first)
    (late : ∀ a, Tidy path (next a)) : Tidy path (first >>= next) := by
  intro project e after failed
  rcases perform_bind_eq_error project failed with stopped | ⟨a, middle, done, failed⟩
  · exact early.tidyFailure _ stopped
  · have untouched := early.untouched done
    have same : middle.disk.aim path = project.disk.aim path := by
      unfold Files.Disk.aim
      rw [untouched.home]
    exact (same ▸ late a middle e after failed).after_untouched untouched

/-- What cannot fail may come last. -/
theorem Tidy.before_completes {path : Files.Path} {first : Action α} {next : α → Action β}
    (early : Tidy path first) (late : ∀ a, Completes (next a)) : Tidy path (first >>= next) := by
  intro project e after failed
  rcases perform_bind_eq_error project failed with stopped | ⟨a, middle, done, failed⟩
  · exact early project e after stopped
  · obtain ⟨b, last, completed⟩ := late a middle
    rw [completed] at failed
    cases failed

/-! ### Writing -/

/-- The place of the draft of a file. -/
def draftPlace (project : Project) (path : Files.Path) : Files.Place :=
  let folder := (project.disk.aim path).dropLast
  folder ++ [draftName path (draftNumber project.disk folder path)]

/-- A draft next to a file is a new file, and counts unless it is one among the copies. -/
theorem untouched_draft_iff (project : Project) (path : Files.Path) :
    Untouched project { project with disk := project.disk.write (draftPlace project path) [] } ↔
      InBackups project.root (project.disk.aim path) := by
  have inner : draftPlace project path ≠ [] := by simp [draftPlace]
  have beside : InBackups project.root (draftPlace project path) ↔
      InBackups project.root (project.disk.aim path) := by simp [InBackups, draftPlace]
  have new : project.disk.bytes? (draftPlace project path) = none := by
    unfold Files.Disk.bytes? draftPlace
    rw [node?_draft]
  rw [← beside]
  constructor
  · intro untouched
    by_contra outside
    have same := untouched.files _ outside
    rw [Files.Disk.bytes?_write _ _ _ _ inner, if_pos rfl, new] at same
    cases same
  · intro inside
    refine ⟨rfl, rfl, rfl, fun place outside => ?_, ?_, rfl⟩
    · have other : draftPlace project path ≠ place := by
        rintro rfl
        exact outside inside
      rw [Files.Disk.bytes?_write _ _ _ _ inner, if_neg other]
    · rw [recordFiles_eq, recordFiles_eq]
      congr 1
      exact Table.filterMap_put _ _ _ _ fun node => listed?_unnamed node (draftName_unnamed _ _)

/-- Encodings of Unicode have bytes for every text. -/
theorem narrow_of_encode {encoding : Files.Encoding} {text : List Char} {e : Files.Encoding.EncodeError}
    (failed : encoding.encode text = .error e) : encoding = .latin1 ∨ encoding = .ascii := by
  cases encoding with
  | utf8 => cases failed
  | signedUtf8 => cases failed
  | latin1 => exact .inl rfl
  | ascii => exact .inr rfl

theorem tidy_replaceFile (path : Files.Path) (clean : Files.Path.back ∉ path.names) (content : List Char) :
    Tidy path (replaceFile path content) := by
  intro project e after failed
  unfold replaceFile at failed
  rw [perform_bind_ok project (perform_get project)] at failed
  cases found : project.disk.locate path with
  | error fault =>
    simp only [found, lift, perform_bind, perform_throw] at failed
    obtain ⟨rfl, rfl⟩ : ProjectError.path fault = e ∧ project = after := by simpa using failed
    exact .of_untouched _ (.refl project) (by simp)
  | ok place =>
    obtain rfl := Files.Disk.locate_clean clean found
    rw [found, lift, perform_bind_ok project (perform_pure project _)] at failed
    dsimp only at failed
    split at failed
    · rw [perform_bind_error project (perform_refuse project _ _ _)] at failed
      obtain ⟨rfl, rfl⟩ : _ = e ∧ project = after := by simpa using failed
      exact .of_untouched _ (.refl project) (by simp)
    · split at failed
      · obtain ⟨rfl, rfl⟩ : _ = e ∧ project = after := by simpa using failed
        exact .of_untouched _ (.refl project) (by simp)
      · rename_i encoding named
        split at failed
        · simp at failed
        · rename_i fault unencodable
          rw [perform_bind_ok project (perform_set project _)] at failed
          obtain ⟨rfl, rfl⟩ := by simpa using failed
          refine ⟨?_, fun _ => ?_⟩
          · rw [← draftPlace, untouched_draft_iff]
            simp [IsUnencodable]
          · unfold IsNarrow
            rw [named]
            exact (narrow_of_encode unencodable).imp (congrArg some) (congrArg some)

theorem tidy_write (path : Files.Path) (clean : Files.Path.back ∉ path.names) (content : List Char)
    (expected : Option (List Char)) : Tidy path (write path content expected) := by
  unfold write
  refine .after_safe (safe_prepareWrite path expected) fun (current, copied) => ?_
  exact .before_completes (tidy_replaceFile path clean _) fun _ => Completes.pure _

theorem tidy_commit (file : String) (path : Files.Path) (clean : Files.Path.back ∉ path.names)
    (before content : List Char) (parsed : α) (keep : Cached α → Cache → Cache) (kind : TransformKind)
    (requestId : String) (metadata : Json.Members) :
    Tidy path (commit file path before content parsed keep kind requestId metadata) := by
  intro project e after failed
  rcases commit_cases project file path before content parsed keep kind requestId metadata with
    ⟨e', after', unwritten, stopped⟩ | ⟨_, _, _, _, _, -, done, -⟩
  · rw [stopped] at failed
    cases failed
    exact tidy_write path clean content _ project e after unwritten
  · rw [done] at failed
    cases failed

/-! ### Edits -/

/-- The place of a file that a request names. -/
def placeOf (project : Project) (file : String) : Files.Place := project.disk.aim (project.resolve file)

/-- When the edit of a file fails, it fails tidily for this file. -/
def TidyEdit (file : String) (action : Action α) : Prop :=
  ∀ (project : Project) (e : ProjectError) (after : Project),
    project.perform action = (.error e, after) → TidyFailure project (project.placeOf file) e after

theorem clean_resolve (project : Project) (file : String) :
    Files.Path.back ∉ (project.resolve file).names :=
  Files.Path.not_mem_normal _

/-- What is safe may come in front of an edit. -/
theorem TidyEdit.after_safe {file : String} {first : Action α} {next : α → Action β} (early : Safe first)
    (late : ∀ a, TidyEdit file (next a)) : TidyEdit file (first >>= next) := by
  intro project e after failed
  rcases perform_bind_eq_error project failed with stopped | ⟨a, middle, done, failed⟩
  · exact early.tidyFailure _ stopped
  · have untouched := early.untouched done
    have same : middle.placeOf file = project.placeOf file := by
      unfold placeOf resolve Files.Disk.aim
      rw [untouched.root, untouched.home]
    exact (same ▸ late a middle e after failed).after_untouched untouched

/-- An edit goes on with the file that was loaded for it. -/
theorem TidyEdit.after_load {γ : Type} {file : String} {load : Action (Files.Path × γ)}
    {next : Files.Path × γ → Action β} (early : Safe load)
    (aimed : ∀ (project : Project) path kept after, project.perform load = (.ok (path, kept), after) →
      path = project.resolve file)
    (late : ∀ path kept, Files.Path.back ∉ path.names → Tidy path (next (path, kept))) :
    TidyEdit file (load >>= next) := by
  intro project e after failed
  rcases perform_bind_eq_error project failed with stopped | ⟨⟨path, kept⟩, middle, done, failed⟩
  · exact early.tidyFailure _ stopped
  · obtain rfl := aimed project path kept middle done
    have untouched := early.untouched done
    have same : middle.disk.aim (project.resolve file) = project.placeOf file := by
      unfold placeOf Files.Disk.aim
      rw [untouched.home]
    have later := late _ kept (clean_resolve project file) middle e after failed
    exact (same ▸ later).after_untouched untouched

/-- Forgetting readings when an action fails changes nothing about the files. -/
theorem Tidy.forgetting {path : Files.Path} {action : Action α} (tidy : Tidy path action)
    (forgets : ProjectError → Prop) [DecidablePred forgets] (change : Cache → Cache) :
    Tidy path (tryCatch action fun e =>
      if forgets e then modifyCache change >>= fun _ => throw e else throw e) := by
  intro project e after failed
  rw [perform_try] at failed
  rcases outcome : project.perform action with ⟨e' | a, middle⟩
  · simp only [outcome] at failed
    have before := tidy project e' middle outcome
    split at failed
    · rw [perform_bind_ok middle (perform_modifyCache middle change), perform_throw] at failed
      cases failed
      have forgotten := Untouched.of_cache middle (change middle.cache)
      refine ⟨?_, before.narrow⟩
      rw [← before.untouched_iff]
      exact ⟨fun h => h.trans forgotten.symm, fun h => h.trans forgotten⟩
    · rw [perform_throw] at failed
      cases failed
      exact before
  · simp [outcome] at failed

theorem safe_splice (document : Markup.Document) (text : List Char) (target : SourceLocator)
    (prior new : String) :
    Safe (lift ofTextError (document.updateText text target.line target.column prior new)) :=
  .lift (fun e fault => by cases e <;> simp [ofTextError]) _

theorem tidy_updateText (target : SourceLocator) (prior new requestId : String) :
    TidyEdit target.file (updateText target prior new requestId) := by
  unfold updateText
  refine .after_load (safe_loadDocument target.file) ?_ fun path kept clean => ?_
  · intro project path kept after done
    obtain ⟨_, _, aimed, _⟩ := loadDocument_eq_ok done
    exact aimed
  · refine .after_safe (safe_splice _ _ _ _ _) fun updated => ?_
    refine .after_safe (safe_requireSound _ _ _) fun _ => ?_
    exact tidy_commit _ path clean _ _ _ _ _ _ _

theorem tidy_editSheet (target : SourceLocator) (kind : TransformKind) (requestId : String)
    (edit : Sheet → String → Sheet.Outcome (Option Style.Value)) :
    TidyEdit target.styleFile (editSheet target kind requestId edit) := by
  unfold editSheet
  refine .after_safe (safe_targetSelector target) fun selector => ?_
  refine .after_load (safe_loadSheet _) ?_ fun path kept clean => ?_
  · intro project path kept after done
    exact (loadSheet_eq_ok done).1
  · refine Tidy.forgetting ?_ _ _
    refine .after_safe (.modifyCache _) fun _ => .after_safe (safe_ofOutcome _) fun previous => ?_
    refine .after_safe (safe_requireSound _ _ _) fun _ => ?_
    exact .before_completes (tidy_commit _ path clean _ _ _ _ _ _ _) fun _ => Completes.pure _

/-- The file that a request changes. -/
def editedFile (request : Request) : String :=
  match request.change with
  | .textUpdate .. => request.target.file
  | _ => request.target.styleFile

/-- A failed edit leaves the project untouched, unless it failed for want of bytes for the new text of a
file outside the folder of copies. -/
theorem tidy_edit (request : Request) : TidyEdit (editedFile request) (edit request) := by
  unfold edit editedFile
  cases request.change with
  | textUpdate prior new => exact tidy_updateText request.target prior new request.id
  | cssUpdate property prior new => exact tidy_editSheet request.target .cssUpdate request.id _
  | cssAdd property prior new => exact tidy_editSheet request.target .cssAdd request.id _
  | cssRemove property prior => exact tidy_editSheet request.target .cssRemove request.id _

theorem tidy_apply (request : Request) : TidyEdit (editedFile request) (apply request) := by
  intro project e after failed
  rcases perform_bind_eq_error project failed with stopped | ⟨a, middle, done, failed⟩
  · exact tidy_edit request project e after stopped
  · cases failed

end Retouch.Project
