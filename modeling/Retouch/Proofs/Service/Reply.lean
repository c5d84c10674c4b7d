import Retouch.Proofs.Client.Inbound
import Retouch.Proofs.Project.Reportable
import Retouch.Proofs.Service.Undo
import Retouch.Proofs.Wire.Message

/-!
# From a request to what its answer says

A page asks to replace a text and is answered. On the way the request is written, read and checked, the edit is made
or something stops it, the answer is written, and the page reads it. What it reads is about the edit that it asked
for, under the same id: that it was made, or the message of what stopped it.

## Main statements

* `tellable_edit`: what stops the edit of a text can be told in an answer.
* `readFrame_answer`: a page reads in an answer which request succeeded, or why it did not.
* `answerFrame_request`: a request to replace a text is answered by how the edit of its text went.
-/
namespace Retouch

/-! ### Errors that can be told -/

/-- An error that an answer can tell with its details. -/
def Tellable : ProjectError → Prop
  | .refused e => ∀ details, e.details = some details → Json.Readable 2 (.obj details)
  | .unreportable _ => False
  | _ => True

theorem usual_tellable : Project.Usual Tellable where
  bare := by simp [Tellable]
  naming _ _ file := by
    rintro _ ⟨⟩
    exact .obj (by simp) (by simpa using .str file)
  path := by simp [Tellable]
  nulInPath := by simp [Tellable]
  unknownEncoding := by simp [Tellable]
  unencodable := by simp [Tellable]

namespace Markup

/-- A text is put in its place, unless the bytes around it are no characters. -/
theorem tellable_of_replaceText {e : Element} {source text new : List Char} {fault : TextError}
    (failed : e.replaceText source text new = .error fault) : Tellable (Project.ofTextError fault) := by
  have decoding {bytes : Text.Bytes} (failed : decodeText bytes = .error fault) :
      Tellable (Project.ofTextError fault) := by
    unfold decodeText Except.mapError at failed
    split at failed
    · obtain rfl := Except.error.inj failed
      trivial
    · cases failed
  unfold Element.replaceText at failed
  dsimp only at failed
  split at failed
  · simp only [bind, Except.bind] at failed
    split at failed
    · rename_i stopped
      obtain rfl := Except.error.inj failed
      exact decoding stopped
    · exact decoding failed
  · exact decoding failed

/-- What is wrong with the edit of a text can be told, if its place can. -/
theorem tellable_of_updateText {d : Document} {text : List Char} {target : SourceLocator} {prior new : String}
    {fault : TextError} (sendable : target.Sendable)
    (failed : d.updateText text target.line target.column prior new = .error fault) :
    Tellable (Project.ofTextError fault) := by
  unfold Document.updateText at failed
  cases found : d.find text target.line target.column with
  | error e =>
    rw [found] at failed
    obtain rfl := Except.error.inj failed
    trivial
  | ok there =>
    simp only [found, Except.mapError, bind, Except.bind] at failed
    cases there with
    | none =>
      -- No element stands there: the details tell line and column, so these must not be too long.
      obtain rfl := Except.error.inj failed
      rintro _ ⟨⟩
      exact .obj (by simp) (by simpa using ⟨.int sendable.shortLine, .int sendable.shortColumn⟩)
    | some e =>
      dsimp only at failed
      split at failed
      · obtain rfl := Except.error.inj failed
        rintro _ ⟨⟩
        exact .obj (by simp) (by simpa using .str _)
      split at failed
      · obtain rfl := Except.error.inj failed
        rintro _ ⟨⟩
        exact .obj (by simp) (by simpa using .str _)
      split at failed
      · -- The text that is shown is compared first.
        split at failed
        · rename_i differs
          obtain rfl := Except.error.inj failed
          unfold checkContent at differs
          split at differs
          · cases differs
          · obtain rfl := Except.error.inj differs
            rintro _ ⟨⟩
            exact .obj (by simp) (by simpa using ⟨.str _, .str _, .str _⟩)
        · exact tellable_of_replaceText failed
      · exact tellable_of_replaceText failed

end Markup

namespace Project

/-- What stops the edit of a text can be told in an answer. -/
theorem tellable_edit {request : Request} {prior new : String} (text : request.change = .textUpdate prior new)
    (sendable : request.target.Sendable) : Stops Tellable (edit request) := by
  unfold edit
  rw [text]
  exact stops_updateText usual_tellable (fun _ _ _ failed => Markup.tellable_of_updateText sendable failed) _

end Project

/-! ### Answers on the page -/

namespace Service

/-- What a page is told by an answer. -/
def verdictOf (r : TransformResult) : Client.Verdict :=
  if r.success then .committed
  else .failed (.str ((r.error.map TransformError.message).getD "Unknown error"))

/-- A page reads in an answer which request succeeded, or why it did not. -/
theorem readFrame_answer {r : TransformResult} (readable : Json.Readable 4 (Message.result r).toJson)
    (named : r.requestId ≠ "") :
    Client.readFrame (Message.result r).toText = .ok (some (r.requestId, verdictOf r)) := by
  have read : Json.read (Message.result r).toText = .ok (Message.result r).toJson :=
    Json.read_write (readable.mono (by decide))
  have told : Client.IsResult (Message.result r).toText (("type", .str "transform-result") :: r.members) := ⟨read, rfl⟩
  have id : Client.memberOf (("type", .str "transform-result") :: r.members) "requestId" = .str r.requestId := rfl
  -- An empty id would name no edit.
  have truthy : (Client.memberOf (("type", .str "transform-result") :: r.members) "requestId").isTruthy = true := by
    rw [id]
    simpa [Json.isTruthy] using named
  have judged : Client.verdictOf (("type", .str "transform-result") :: r.members) = .ok (verdictOf r) := by
    unfold Client.verdictOf verdictOf
    have success : Json.Members.lookup (("type", .str "transform-result") :: r.members) "success" =
      some (.bool r.success) := rfl
    rw [success]
    cases made : r.success with
    | true => rfl
    | false =>
      have error : Json.Members.lookup (("type", .str "transform-result") :: r.members) "error" =
          r.error.map TransformError.toJson := by
        unfold TransformResult.members
        cases r.affectedFiles <;> cases r.error <;> cases r.undoData <;> rfl
      rw [error]
      cases r.error with
      | none => rfl
      | some e => rfl
  rw [Client.readFrame_result told, Client.readResult_named truthy, judged, id]
  rfl

/-! ### Requests and their answers -/

/-- How the edit of a request went in a project: it was made, or something stopped it, of which its answer tells. -/
inductive Ruling (request : Request) (found : Project) : Client.Verdict → Prop where
  | made {edited : Project.Edited} (made : (found.perform (Project.edit request)).1 = .ok edited) :
    Ruling request found .committed
  | stopped {e : ProjectError} {error : TransformError} (stopped : (found.perform (Project.edit request)).1 = .error e)
      (told : Registry.ofError request.id e = .ok (.failed request.id error)) :
    Ruling request found (.failed (.str error.message))

/-- An error that can be told is told under the id of its request. -/
theorem ofError_tellable (id : String) {e : ProjectError} (tellable : Tellable e) :
    ∃ error, Registry.ofError id e = .ok (.failed id error) ∧
      ∀ details, error.details = some details → Json.Readable 2 (.obj details) := by
  cases e with
  | refused error => exact ⟨error, rfl, tellable⟩
  | unreportable => exact tellable.elim
  | _ => exact ⟨_, rfl, by simp⟩

/-- The members of the message with a request. -/
abbrev messageOf (request : Request) : Json.Members := ("action", .str "transform") :: request.members

variable {request : Request} {prior new : String}

theorem readFrame_request (text : request.change = .textUpdate prior new) (sendable : request.target.Sendable) :
    readFrame (Client.requestMessage request).write = .ok (messageOf request) := by
  obtain ⟨id, target, change⟩ := request
  subst text
  unfold readFrame
  rw [Json.read_write ((readable_requestMessage sendable).mono (by decide))]
  rfl

theorem accepts_message (text : request.change = .textUpdate prior new) (sendable : request.target.Sendable)
    (named : request.id ≠ "") : Registry.Accepts (.str request.change.kind.name) (.obj (messageOf request)) request := by
  have proper : request.change.Proper := text ▸ .textUpdate prior new
  exact ⟨request.change.kind, rfl, Wire.Checked.result_eq_ok_iff.mpr
    (Wire.request_eq_ok_of_members rfl rfl rfl rfl named sendable.toProper proper).1⟩

/-- A request to replace a text is answered by how the edit of its text went, under its id. -/
theorem answerFrame_request (text : request.change = .textUpdate prior new) (sendable : request.target.Sendable)
    (named : request.id ≠ "") (project : Project) :
    ∃ answer verdict, (answerFrame Registry.standard (Client.requestMessage request).write project).1 = .ok answer ∧
      Client.readFrame answer = .ok (some (request.id, verdict)) ∧ Ruling request project verdict := by
  -- The frame is read as the request that was written, and the standard handler accepts it.
  rw [answerFrame_asked (readFrame_request text sendable) ⟨rfl, rfl, rfl⟩,
    Registry.execute_accepted (accepts_message text sendable named), Project.apply, Project.perform_bind]
  rcases outcome : project.perform (Project.edit request) with ⟨e | edited, after⟩
  · have tellable : Tellable e := Project.tellable_edit text sendable project after e outcome
    obtain ⟨error, told, details⟩ := ofError_tellable request.id tellable
    have readable : Json.Readable 4 (Message.result (.failed request.id error)).toJson :=
      readable_result (by rintro _ ⟨⟩; exact readable_transformError details) (by rintro _ ⟨⟩)
    refine ⟨_, _, ?_, readFrame_answer readable named, .stopped (by rw [outcome]) told⟩
    dsimp only
    rw [told]
  · have readable : Json.Readable 4 (Message.result
        ⟨true, request.id, some edited.affectedFiles, none, some (Project.undoData request edited)⟩).toJson := by
      refine readable_result (by rintro _ ⟨⟩) ?_
      rintro _ ⟨⟩
      unfold Project.undoData
      rw [text]
      exact readable_undoData sendable.withoutStyle
    exact ⟨_, _, rfl, readFrame_answer readable named, .made (by rw [outcome])⟩

end Service

end Retouch
