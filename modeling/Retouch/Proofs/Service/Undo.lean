import Retouch.Proofs.Project.Committed
import Retouch.Proofs.Project.Reverting
import Retouch.Proofs.Service.Answer
import Retouch.Proofs.Style.WellFormed
import Retouch.Proofs.Wire.Transform

/-!
# What reverts a transform, there and back

A transform that was made is answered with the change that reverts it. A page keeps this as it arrived, and may send
it as a request of its own. The standard handlers only take requests that are proper, and the values that they find
in a sheet are well formed; so what reverts a transform is proper too.

## Main statements

* `execute_accepted`: a request that is accepted is answered by what its edit comes to.
* `proper_undoData`: what reverts a proper request is proper.
* `wire_round_trip`: style values, and what reverts a transform, arrive as they were; and what reverts it can be asked
  for.
-/
namespace Retouch

open Project

/-! ### What was found before -/

/-- The value that an addition has found was read from a text. -/
theorem Sheet.parsed_of_addDeclaration {sheet : Sheet} {selector property : String} {new : Style.Value}
    {prior : Option Style.Value} {value : Style.Value}
    (done : (sheet.addDeclaration selector property new prior none).result = .ok (some value)) :
    ∃ text, value = .parse property text := by
  have parsed {rule : Rule} (found : rule.style? property = some value) : ∃ text, value = .parse property text := by
    obtain ⟨p, -, rfl⟩ := Option.map_eq_some_iff.mp found
    exact ⟨_, rfl⟩
  unfold addDeclaration at done
  rcases found : sheet.resolve selector none with e | ⟨rule, index⟩
  · rw [found] at done
    cases done
  rw [found] at done
  dsimp only at done
  -- What is answered is the value that was found before anything was written.
  have answer {previous : Option Style.Value}
      (done : (sheet.setRecorded rule index property new [new] previous).result = .ok (some value)) :
      previous = some value := by
    obtain ⟨_, -, -, -, -, same⟩ := setRecorded_eq_ok.mp (show _ = Outcome.mk _ (.ok (some value)) from by
      rw [← done])
    exact same
  cases prior with
  | none => exact parsed (answer done)
  | some prior =>
    dsimp only at done
    cases checked : checkPrior rule property prior with
    | error e =>
      rw [checked] at done
      cases done
    | ok current =>
      rw [checked] at done
      obtain rfl := Option.some.inj (answer done)
      exact parsed (checkPrior_eq_ok.mp checked).1

namespace Project

/-- What reverts a proper request is proper. -/
theorem proper_undoData {project after : Project} {request : Request} {edited : Edited}
    (done : project.perform (edit request) = (.ok edited, after)) (place : request.target.Proper)
    (proper : request.change.Proper) :
    (undoData request edited).target.Proper ∧ (undoData request edited).change.Proper := by
  unfold undoData
  unfold edit at done
  cases change : request.change with
  | textUpdate prior new => exact ⟨⟨place.file, place.line, place.column⟩, .textUpdate new prior⟩
  | cssUpdate property prior new =>
    rw [change] at proper
    cases proper with
    | cssUpdate named expected fits => exact ⟨place, .cssUpdate named fits expected⟩
  | cssAdd property prior new =>
    rw [change] at proper done
    cases proper with
    | cssAdd named expected fits =>
    cases found : edited.previous with
    | none => exact ⟨place, .cssRemove named fits⟩
    -- The overwritten value comes from the sheet, not from the request, so it fits because it was read.
    | some previous =>
      obtain ⟨-, selector, kept, loaded, r, -, -, made, -⟩ := editSheet_ends done
      rw [found] at made
      obtain ⟨text, rfl⟩ := Sheet.parsed_of_addDeclaration made
      exact ⟨place, .cssUpdate named fits (Style.Value.fits_parse property text)⟩
  | cssRemove property prior =>
    rw [change] at proper
    cases proper with
    | cssRemove named expected => exact ⟨place, .cssAdd named (by simp) expected⟩

end Project

namespace Service.Registry

/-- A request that is accepted is answered by what its edit comes to. -/
theorem execute_accepted {type input : Json} {request : Request} (accepted : Accepts type input request)
    (project : Project) : standard.execute type input project =
      match project.perform (apply request) with
      | (.ok result, after) => (.ok result, after)
      | (.error e, after) => (ofError request.id e, after) := by
  -- An answer to an accepted request carries the id of the request, however the edit goes.
  rw [accepted.id_eq]
  obtain ⟨kind, rfl, read⟩ := accepted
  have prepared : (editHandler kind).prepare input = .ok (apply request) := by
    unfold editHandler
    dsimp only
    rw [read]
    rfl
  rcases outcome : project.perform (apply request) with ⟨e | result, after⟩ <;>
    simp [execute, Wire.lookupFault?, Json.asString?, find?_kind, prepared, outcome]

/-- A transform that succeeds was accepted, and its answer says what reverts the edit that was made. -/
theorem execute_eq_success {type input : Json} {project after : Project} {result : TransformResult}
    (answered : standard.execute type input project = (.ok result, after)) (success : result.success = true) :
    ∃ request edited, Accepts type input request ∧ project.perform (edit request) = (.ok edited, after) ∧
      result.undoData = some (undoData request edited) := by
  rcases execute_cases answered with ⟨-, -, fails⟩ | ⟨request, accepted, ⟨e, -, fails⟩ | ⟨edited, -, made, -, -⟩⟩
  · rw [fails result rfl] at success
    cases success
  · rw [fails result rfl] at success
    cases success
  · rw [execute_accepted accepted, apply_eq_ok_iff.mpr ⟨edited, made, rfl⟩] at answered
    cases answered
    exact ⟨request, edited, accepted, made, rfl⟩

/-- The request for what reverts a transform, under an id, from what was written of it. -/
def askedAgain (id : String) (undo : Json) : Json :=
  let member (name : String) : Json := (undo.get? name).getD .null
  .obj [("id", .str id), ("type", member "type"), ("target", member "target"), ("change", member "revertChange")]

/-- Style values arrive as they were, unless they nest too deep. What reverts a transform that was made arrives as it
was, and what was written of it makes a request for the same change at the same place. -/
theorem wire_round_trip :
    (∀ value : Style.Value, Wire.value value.toJson = .ok value ↔ Wire.Fits Wire.nestingLimit value) ∧
      ∀ (type input : Json) (project after : Project) (result : TransformResult),
        standard.execute type input project = (.ok result, after) → result.success = true →
          ∃ undo, result.undoData = some undo ∧ Wire.undoData undo.toJson = .ok undo ∧ ∀ id, id ≠ "" →
            Wire.request undo.change.kind (askedAgain id undo.toJson) = .ok ⟨id, undo.target, undo.change⟩ ∧
              Wire.anyRequest (askedAgain id undo.toJson) = .ok ⟨id, undo.target, undo.change⟩ := by
  refine ⟨Wire.valueAt_toJson_iff Wire.nestingLimit, fun type input project after result answered success => ?_⟩
  obtain ⟨request, edited, ⟨kind, rfl, read⟩, made, told⟩ := execute_eq_success answered success
  obtain ⟨-, place, proper⟩ := Wire.proper_of_request (Wire.Checked.result_eq_ok_iff.mp read)
  obtain ⟨place, proper⟩ := proper_undoData made place proper
  exact ⟨_, told, Wire.undoData_toJson place proper, fun id named =>
    Wire.request_eq_ok_of_members (r := ⟨id, _, _⟩) rfl rfl rfl rfl named place proper⟩

/-- A request to replace the text of the element. -/
def plainRequest : Json :=
  .obj [("id", .str "1"),
    ("target", .obj [("file", .str "a.tsx"), ("lineNumber", .int 1), ("column", .int 11)]),
    ("change", .obj [("originalText", .str "x"), ("newText", .str "y")])]

/-- The text of an element is replaced, and what reverts this is asked for. -/
theorem wire_round_trip_text : ∃ result after undo,
    standard.execute (.str "text-update") plainRequest asciiProject = (.ok result, after) ∧ result.success = true ∧
      result.undoData = some undo ∧ Wire.undoData undo.toJson = .ok undo ∧
        Wire.request undo.change.kind (askedAgain "2" undo.toJson) = .ok ⟨"2", undo.target, undo.change⟩ := by
  have success : ((standard.execute (.str "text-update") plainRequest asciiProject).1.toOption.map
      TransformResult.success) = some true := by decide +kernel
  rcases outcome : standard.execute (.str "text-update") plainRequest asciiProject with ⟨e | result, after⟩
  · simp [outcome, Except.toOption] at success
  · rw [outcome] at success
    have made : result.success = true := by simpa [Except.toOption] using success
    obtain ⟨undo, told, back, again⟩ := wire_round_trip.2 _ _ _ _ _ outcome made
    exact ⟨result, after, undo, rfl, made, told, back, (again "2" (by decide)).1⟩

end Service.Registry

end Retouch
