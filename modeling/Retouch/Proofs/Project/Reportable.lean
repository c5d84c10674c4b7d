import Retouch.Proofs.Project.Perform

/-!
# What stops an action

Actions on a project read and write files, and what may stop them there is much the same for all: a refusal that
gives no details or names a file, or a fault of a path or an encoding. So whatever holds of these errors holds of all
that stops an action, if it holds of the few that are the action's own.

A handler may end with a refusal that no answer has words for. The edits of a project never do: whatever stops them is
a refusal with a known code, or a fault that is told in words.

## Main statements

* `stops_updateText`: what stops the edit of a text is one of the usual errors, or what is wrong with the text.
* `reportable_apply`: whatever stops a request, it can be reported.
-/
namespace Retouch.Project

variable {α β : Type} {P : ProjectError → Prop}

/-- Whatever stops an action is of some kind. -/
def Stops (P : ProjectError → Prop) (action : Action α) : Prop :=
  ∀ (project after : Project) (e : ProjectError), project.perform action = (.error e, after) → P e

/-- Whether an error is a refusal that no answer can carry. -/
def IsUnreportable (e : ProjectError) : Prop := ∃ r, e = .unreportable r

/-- An action that never ends with a refusal that no answer can carry. -/
def Reportable (action : Action α) : Prop :=
  ∀ (project after : Project) (e : ProjectError),
    project.perform action = (.error e, after) → ¬IsUnreportable e

namespace Stops

theorem of_completes {action : Action α} (completes : Completes action) : Stops P action := by
  intro project after e failed
  obtain ⟨a, last, done⟩ := completes project
  rw [done] at failed
  cases failed

theorem pure (a : α) : Stops P (Pure.pure a : Action α) := of_completes (.pure a)

theorem get : Stops P (get : Action Project) := of_completes .get

theorem set (other : Project) : Stops P (set other : Action PUnit) := of_completes (.set other)

theorem modifyCache (change : Cache → Cache) : Stops P (modifyCache change) :=
  of_completes (.modifyCache change)

theorem throw {e : ProjectError} (holds : P e) : Stops P (throw e : Action α) := by
  intro project after e' failed
  cases failed
  exact holds

theorem lift {ε : Type} {wrap : ε → ProjectError} {outcome : Except ε α}
    (each : ∀ e, outcome = .error e → P (wrap e)) : Stops P (lift wrap outcome) := by
  cases outcome with
  | ok a => exact pure a
  | error e => exact throw (each e rfl)

theorem bind {first : Action α} {next : α → Action β} (early : Stops P first)
    (late : ∀ a, Stops P (next a)) : Stops P (first >>= next) := by
  intro project after e failed
  rcases perform_bind_eq_error project failed with stopped | ⟨a, middle, -, failed⟩
  · exact early project after e stopped
  · exact late a middle after e failed

theorem ite {condition : Prop} [Decidable condition] {first second : Action α} (one : Stops P first)
    (other : Stops P second) : Stops P (if condition then first else second) := by
  split
  · exact one
  · exact other

/-- A stop on the way, if there is a reason. -/
theorem guard {reason : Prop} [Decidable reason] {stop : Action α} {rest : Action β}
    (early : Stops P stop) (late : Stops P rest) :
    Stops P (if reason then stop >>= fun _ => rest else rest) :=
  .ite (.bind early fun _ => late) late

/-- What is done about an error may let it pass on. -/
theorem tryCatch {action : Action α} {handle : ProjectError → Action α} (early : Stops P action)
    (late : ∀ e, P e → Stops P (handle e)) : Stops P (tryCatch action handle) := by
  intro project after e failed
  rw [perform_try] at failed
  rcases outcome : project.perform action with ⟨e' | a, middle⟩
  · rw [outcome] at failed
    exact late e' (early project middle e' outcome) middle after e failed
  · rw [outcome] at failed
    cases failed

end Stops

/-- Errors of a kind that the usual ones are of. -/
structure Usual (P : ProjectError → Prop) : Prop where
  bare : ∀ code message, P (.refused ⟨code, message, none⟩)
  naming : ∀ code message file, P (.refused ⟨code, message, naming file⟩)
  path : ∀ e, P (.path e)
  nulInPath : P .nulInPath
  unknownEncoding : ∀ name, P (.unknownEncoding name)
  unencodable : ∀ e, P (.unencodable e)

section usual

variable (usual : Usual P)

include usual

/-! ### Reading -/

theorem stops_locate (file : String) : Stops P (locate file) := by
  unfold locate
  refine .bind .get fun project => ?_
  dsimp only
  exact .guard (.throw usual.nulInPath) (.ite (.pure _) (.throw (usual.naming _ _ _)))

theorem stops_decode (bytes : Text.Bytes) : Stops P (decode bytes) := by
  unfold decode
  refine .bind .get fun project => ?_
  dsimp only
  split
  · exact .pure _
  · exact .throw (usual.unknownEncoding _)

theorem stops_readSource (file : String) : Stops P (readSource file) := by
  unfold readSource
  refine .bind (stops_locate usual file) fun path => .bind .get fun project => ?_
  refine .bind (.lift fun e _ => usual.path e) fun isFile => .guard (.throw (usual.naming _ _ _)) ?_
  split
  · exact .throw (usual.naming _ _ _)
  · refine .bind (stops_decode usual _) fun text => ?_
    split
    · exact .throw (usual.naming _ _ _)
    · exact .pure _

theorem stops_loadDocument (file : String) : Stops P (loadDocument file) := by
  unfold loadDocument
  split
  · exact .throw (usual.naming _ _ _)
  · refine .bind (stops_readSource usual file) fun (path, text) => .bind .get fun project => ?_
    dsimp only
    split
    · exact .bind (.modifyCache _) fun _ => .pure _
    · exact .bind (.modifyCache _) fun _ => .pure _

theorem stops_loadSheet (file : String) : Stops P (loadSheet file) := by
  unfold loadSheet
  dsimp only
  refine .guard (.throw (usual.bare _ _)) (.guard (.throw (usual.naming _ _ _)) ?_)
  refine .bind (stops_readSource usual file) fun (path, text) => .bind .get fun project => ?_
  dsimp only
  split
  · exact .bind (.modifyCache _) fun _ => .pure _
  · exact .bind (.modifyCache _) fun _ => .pure _

/-! ### Writing -/

theorem stops_readCurrent (path : Files.Path) : Stops P (readCurrent path) := by
  unfold readCurrent
  dsimp only
  refine .guard (.throw usual.nulInPath) (.bind .get fun project => ?_)
  split
  · exact .throw (usual.bare _ _)
  · refine .bind (stops_decode usual _) fun text => ?_
    split
    · exact .throw (usual.bare _ _)
    · exact .pure _

omit usual in
theorem stops_backUp (path : Files.Path) (bytes : Text.Bytes) : Stops P (backUp path bytes) := by
  unfold backUp
  refine .bind .get fun project => ?_
  dsimp only
  split
  · exact .pure _
  · exact .ite (.bind (.set _) fun _ => .pure _) (.bind (.set _) fun _ => .pure _)

theorem stops_prepareWrite (path : Files.Path) (expected : Option (List Char)) :
    Stops P (prepareWrite path expected) := by
  unfold prepareWrite
  refine .bind (stops_readCurrent usual path) fun (bytes, current) => ?_
  have copying : Stops P (get >>= fun project : Project =>
      if project.settings.backups then backUp path bytes >>= fun copied => pure (current, copied)
      else pure false >>= fun copied => pure (current, copied)) :=
    .bind .get fun project =>
      .ite (.bind (stops_backUp path bytes) fun _ => .pure _) (.bind (.pure _) fun _ => .pure _)
  dsimp only
  split
  · exact .guard (.throw (usual.naming _ _ _)) copying
  · exact copying

theorem stops_replaceFile (path : Files.Path) (content : List Char) : Stops P (replaceFile path content) := by
  unfold replaceFile
  refine .bind .get fun project => .bind (.lift fun e _ => usual.path e) fun place => ?_
  dsimp only
  refine .guard (.throw (usual.bare _ _)) ?_
  split
  · exact .throw (usual.unknownEncoding _)
  · split
    · exact .set _
    · exact .bind (.set _) fun _ => .throw (usual.unencodable _)

theorem stops_write (path : Files.Path) (content : List Char) (expected : Option (List Char)) :
    Stops P (write path content expected) := by
  unfold write
  refine .bind (stops_prepareWrite usual path expected) fun (current, copied) => ?_
  exact .bind (stops_replaceFile usual path _) fun _ => .pure _

theorem stops_commit (file : String) (path : Files.Path) (before content : List Char) (parsed : α)
    (keep : Cached α → Cache → Cache) (kind : TransformKind) (requestId : String) (metadata : Json.Members) :
    Stops P (commit file path before content parsed keep kind requestId metadata) := by
  unfold commit
  refine .bind (stops_write usual path content _) fun (written, _) => ?_
  refine .bind (.modifyCache _) fun _ => .bind .get fun project => .ite ?_ ?_
  · exact .bind (.of_completes (completes_record _)) fun _ => .pure _
  · exact .bind (.pure _) fun _ => .pure _

/-! ### Texts -/

theorem stops_requireSound (before after : Bool) (file : String) : Stops P (requireSound before after file) :=
  .ite (.throw (usual.naming _ _ _)) (.pure _)

/-- What stops the edit of a text is one of the usual errors, or what is wrong with the text. -/
theorem stops_updateText {target : SourceLocator} {prior new : String}
    (wrong : ∀ (document : Markup.Document) (text : List Char) (e : Markup.TextError),
      document.updateText text target.line target.column prior new = .error e → P (ofTextError e))
    (requestId : String) : Stops P (updateText target prior new requestId) := by
  unfold updateText
  refine .bind (stops_loadDocument usual target.file) fun (path, kept) => ?_
  refine .bind (.lift (wrong kept.parsed kept.text)) fun updated => ?_
  exact .bind (stops_requireSound usual _ _ _) fun _ => stops_commit usual _ _ _ _ _ _ _ _ _

end usual

/-! ### Refusals that can be reported -/

theorem usual_reportable : Usual fun e => ¬IsUnreportable e where
  bare := by simp [IsUnreportable]
  naming := by simp [IsUnreportable]
  path := by simp [IsUnreportable]
  nulInPath := by simp [IsUnreportable]
  unknownEncoding := by simp [IsUnreportable]
  unencodable := by simp [IsUnreportable]

theorem reportable_targetSelector (target : SourceLocator) : Reportable (targetSelector target) := by
  unfold targetSelector
  split
  · exact Stops.pure _
  · exact Stops.throw (usual_reportable.bare _ _)

theorem reportable_ofOutcome (outcome : Sheet.Outcome α) : Reportable (ofOutcome outcome) := by
  unfold ofOutcome
  split
  · exact Stops.pure _
  · exact Stops.throw (by simp [IsUnreportable])
  · exact Stops.throw (by simp [IsUnreportable])

theorem reportable_editSheet (target : SourceLocator) (kind : TransformKind) (requestId : String)
    (edit : SheetEdit) : Reportable (editSheet target kind requestId edit) := by
  have usual := usual_reportable
  unfold editSheet
  refine Stops.bind (reportable_targetSelector target) fun selector => ?_
  refine .bind (stops_loadSheet usual target.styleFile) fun (path, kept) => .tryCatch ?_ fun e other => ?_
  · refine .bind (.modifyCache _) fun _ => .bind (reportable_ofOutcome _) fun previous => ?_
    refine .bind (stops_requireSound usual _ _ _) fun _ => ?_
    exact .bind (stops_commit usual _ _ _ _ _ _ _ _ _) fun _ => .pure _
  · exact .guard (.modifyCache _) (.throw other)

theorem reportable_edit (request : Request) : Reportable (edit request) := by
  unfold edit
  split
  · exact stops_updateText usual_reportable (fun _ _ e _ => by cases e <;> simp [IsUnreportable, ofTextError]) _
  · exact reportable_editSheet _ _ _ _
  · exact reportable_editSheet _ _ _ _
  · exact reportable_editSheet _ _ _ _

/-- Whatever stops a request, it can be reported. -/
theorem reportable_apply (request : Request) : Reportable (apply request) :=
  Stops.bind (reportable_edit request) fun _ => .pure _

end Retouch.Project
