import Retouch.Proofs.Project.Reportable
import Retouch.Proofs.Service.Failure
import Retouch.Proofs.Wire.Transform
import Retouch.Service.Connection

/-!
# Answers to frames

Every frame of a page should be answered by one frame: by an error when it holds no object, by a greeting
when it is one, by the result under its own id when it asks for a transform, and by itself otherwise. The
answer is missing in two cases only: where the values of a frame nest too deep to be read, and where the
type of a transform is a list or an object, which no type can be looked up by.

## Main statements

* `execute_ok_iff`: a registry answers a request unless its type cannot be looked up, or its handler ends
  with a refusal that no answer can carry.
* `execute_requestId`: a result of the standard handlers has the id of its request.
* `receive_answers_iff`: the standard handlers answer a frame as it is to be answered, unless it is one of
  the two.
-/
namespace Retouch.Service

/-! ### Looking up types -/

/-- Whether a value is a list or an object, which cannot be looked up. -/
def IsCompound (value : Json) : Prop :=
  (∃ items, value = .arr items) ∨ ∃ members, value = .obj members

theorem lookupFault?_eq_none_iff {value : Json} : Wire.lookupFault? value = none ↔ ¬IsCompound value := by
  cases value <;> simp [Wire.lookupFault?, IsCompound]

namespace Registry

/-- Whether the handler of a type ends a request with a refusal that no answer can carry. -/
def EndsUnreportable (registry : Registry) (type input : Json) (project : Project) : Prop :=
  ∃ handler action r, type.asString?.bind registry.find? = some handler ∧ handler.prepare input = .ok action ∧
    (project.perform action).1 = .error (.unreportable r)

theorem ofError_eq_ok_iff {id : String} {e : ProjectError} :
    (∃ result, ofError id e = .ok result) ↔ ¬Project.IsUnreportable e := by
  cases e <;> simp [ofError, Project.IsUnreportable]

theorem ofError_requestId {id : String} {e : ProjectError} {result : TransformResult}
    (answered : ofError id e = .ok result) : result.requestId = id := by
  cases e <;> cases answered <;> rfl

theorem execute_unusable {registry : Registry} {type input : Json} {project : Project} {kind : String}
    (fault : Wire.lookupFault? type = some kind) :
    registry.execute type input project = (.error (.unusableType kind), project) := by
  unfold execute
  rw [fault]

theorem execute_unknown {registry : Registry} {type input : Json} {project : Project}
    (usable : Wire.lookupFault? type = none) (missing : type.asString?.bind registry.find? = none) :
    registry.execute type input project = (.ok (unknownType (requestId input) type), project) := by
  unfold execute
  rw [usable]
  dsimp only
  rw [missing]

theorem execute_rejected {registry : Registry} {type input : Json} {project : Project} {handler : Handler}
    {r : Wire.Rejection} (usable : Wire.lookupFault? type = none)
    (found : type.asString?.bind registry.find? = some handler) (rejected : handler.prepare input = .error r) :
    registry.execute type input project = (.ok (failedCheck (requestId input) r), project) := by
  unfold execute
  rw [usable]
  dsimp only
  rw [found]
  dsimp only
  rw [rejected]

/-- What is prepared is performed, and what stops it is turned into an answer. -/
theorem execute_prepared {registry : Registry} {type input : Json} {project : Project} {handler : Handler}
    {action : Project.Action TransformResult} (usable : Wire.lookupFault? type = none)
    (found : type.asString?.bind registry.find? = some handler) (prepared : handler.prepare input = .ok action) :
    (registry.execute type input project).1 =
      match (project.perform action).1 with
      | .ok result => .ok result
      | .error e => ofError (requestId input) e := by
  unfold execute
  rw [usable]
  dsimp only
  rw [found]
  dsimp only
  rw [prepared]
  dsimp only
  rcases project.perform action with ⟨e | result, after⟩ <;> rfl

/-- A registry answers a request unless its type cannot be looked up, or its handler ends with a refusal
that no answer can carry. -/
theorem execute_ok_iff (registry : Registry) (type input : Json) (project : Project) :
    (∃ result, (registry.execute type input project).1 = .ok result) ↔
      ¬IsCompound type ∧ ¬registry.EndsUnreportable type input project := by
  rw [← lookupFault?_eq_none_iff]
  cases usable : Wire.lookupFault? type with
  | some kind => simp [execute_unusable usable]
  | none =>
    cases found : type.asString?.bind registry.find? with
    | none => simp [execute_unknown usable found, EndsUnreportable, found]
    | some handler =>
      cases prepared : handler.prepare input with
      | error r => simp [execute_rejected usable found prepared, EndsUnreportable, found, prepared]
      | ok action =>
        rw [execute_prepared usable found prepared]
        cases outcome : (project.perform action).1 with
        | ok result => simp [EndsUnreportable, found, prepared, outcome]
        | error e =>
          have reported : (∃ result, ofError (requestId input) e = .ok result) ↔
              ¬Project.IsUnreportable e := ofError_eq_ok_iff
          simpa [EndsUnreportable, found, prepared, outcome, Project.IsUnreportable] using reported

/-- What a standard handler prepares is the edit that a request asks for. -/
theorem prepare_eq_ok {kind : TransformKind} {input : Json} {action : Project.Action TransformResult}
    (prepared : (editHandler kind).prepare input = .ok action) :
    ∃ request, (Wire.request kind input).result (Wire.requestTitle kind) = .ok request ∧
      action = Project.apply request := by
  unfold editHandler at prepared
  dsimp only at prepared
  cases read : (Wire.request kind input).result (Wire.requestTitle kind) with
  | error r =>
    rw [read] at prepared
    cases prepared
  | ok request =>
    rw [read] at prepared
    cases prepared
    exact ⟨request, rfl, rfl⟩

/-- The standard handlers end with refusals that can be reported. -/
theorem not_endsUnreportable_standard (type input : Json) (project : Project) :
    ¬standard.EndsUnreportable type input project := by
  rintro ⟨handler, action, r, found, prepared, stopped⟩
  obtain ⟨kind, rfl, rfl⟩ := find?_standard found
  obtain ⟨request, -, rfl⟩ := prepare_eq_ok prepared
  exact Project.reportable_apply request project _ _ (Prod.ext stopped rfl) ⟨r, rfl⟩

/-! ### The id of a result -/

/-- A request that is accepted has the id that it was sent under. -/
theorem Accepts.id_eq {type input : Json} {request : Request} (accepted : Accepts type input request) :
    request.id = requestId input := by
  obtain ⟨kind, -, read⟩ := accepted
  obtain ⟨members, rfl, idRead, -⟩ := Wire.request_eq_ok (Wire.Checked.result_eq_ok_iff.mp read)
  obtain ⟨name, named, passed⟩ := Wire.field_eq_ok_iff.mp idRead
  obtain rfl : name = "id" := by simpa using List.mem_of_find?_eq_some named
  obtain ⟨found, -⟩ := Wire.filledString_eq_ok_iff.mp passed
  unfold requestId Json.get?
  dsimp only
  cases there : Json.Members.lookup members "id" with
  | none => simp [there] at found
  | some value =>
    obtain rfl : value = .str request.id := by simpa [there] using found
    rfl

/-- A result of the standard handlers has the id of its request. -/
theorem execute_requestId {type input : Json} {project : Project} {result : TransformResult}
    (answered : (standard.execute type input project).1 = .ok result) : result.requestId = requestId input := by
  cases usable : Wire.lookupFault? type with
  | some kind =>
    rw [execute_unusable usable] at answered
    cases answered
  | none =>
    cases found : type.asString?.bind standard.find? with
    | none =>
      rw [execute_unknown usable found] at answered
      cases answered
      rfl
    | some handler =>
      cases prepared : handler.prepare input with
      | error r =>
        rw [execute_rejected usable found prepared] at answered
        cases answered
        rfl
      | ok action =>
        rw [execute_prepared usable found prepared] at answered
        rcases outcome : project.perform action with ⟨e | made, after⟩
        · rw [outcome] at answered
          exact ofError_requestId answered
        · rw [outcome] at answered
          cases answered
          obtain ⟨kind, rfl, rfl⟩ := find?_standard found
          obtain ⟨request, read, rfl⟩ := prepare_eq_ok prepared
          obtain ⟨edited, last, -, done⟩ := Project.perform_bind_eq_ok project outcome
          cases done
          exact Accepts.id_eq ⟨kind, rfl, read⟩

end Registry

/-! ### What a frame is to be answered by -/

/-- The object in a frame asks for a transform, by its type and under its id. -/
def Asks (message : Json.Members) (type id : Json) : Prop :=
  message.lookup "action" = some (.str "transform") ∧ message.lookup "type" = some type ∧
    message.lookup "id" = some id

/-- What a frame is to be answered by. -/
inductive Answers (frame : String) : String → Prop where
  | error {e : FrameError} (unread : readFrame frame = .error e) :
      Answers frame (Message.error ("Invalid message: " ++ e.message)).toText
  /-- A greeting, with the same id or none. -/
  | pong {message : Json.Members} (read : readFrame frame = .ok message)
      (greets : message.lookup "action" = some (.str "ping")) :
      Answers frame (Message.pong ((message.lookup "id").getD .null)).toText
  | result {message : Json.Members} {type id : Json} {r : TransformResult}
      (read : readFrame frame = .ok message) (asks : Asks message type id)
      (named : ∀ s, id = .str s → r.requestId = s) : Answers frame (Message.result r).toText
  | echo {message : Json.Members} (read : readFrame frame = .ok message)
      (silent : message.lookup "action" ≠ some (.str "ping")) (free : ∀ type id, ¬Asks message type id) :
      Answers frame frame

/-- The values of a frame nest too deep, or it asks for a transform by a list or an object. -/
def Unanswerable (frame : String) : Prop :=
  (∃ e, readFrame frame = .error (.unreadable e) ∧ e.fault = .tooDeep) ∨
    ∃ message type id, readFrame frame = .ok message ∧ Asks message type id ∧ IsCompound type

theorem says_iff {members : Json.Members} {key text : String} :
    members.says key text = true ↔ members.lookup key = some (.str text) := by
  unfold Json.Members.says
  cases members.lookup key with
  | none => simp
  | some value => cases value <;> simp [Json.asString?]

theorem has_iff {members : Json.Members} {key : String} :
    members.has key = true ↔ ∃ value, members.lookup key = some value := by
  rw [← Option.isSome_iff_exists]
  unfold Json.Members.has Json.Members.lookup
  rw [Option.isSome_map, List.find?_isSome, List.any_eq_true]

theorem isTransform_iff {message : Json.Members} :
    isTransform message = true ↔ ∃ type id, Asks message type id := by
  unfold isTransform Asks
  rw [Bool.and_eq_true, Bool.and_eq_true, says_iff, has_iff, has_iff]
  grind

/-- What asks for a transform is answered by a result under its id, unless its type cannot be looked up. -/
theorem execute_asked {message : Json.Members} {type id : Json} (asks : Asks message type id)
    (project : Project) (usable : ¬IsCompound type) :
    ∃ r, (Registry.standard.execute type (.obj message) project).1 = .ok r ∧
      ∀ s, id = .str s → r.requestId = s := by
  obtain ⟨r, answered⟩ := (Registry.execute_ok_iff Registry.standard type (.obj message) project).mpr
    ⟨usable, Registry.not_endsUnreportable_standard _ _ _⟩
  refine ⟨r, answered, ?_⟩
  rintro s rfl
  have named := Registry.execute_requestId answered
  unfold Registry.requestId Json.get? at named
  dsimp only at named
  rwa [asks.2.2] at named

/-- What a frame that asks for a transform is answered by is what the registry answers. -/
theorem answerFrame_asked {registry : Registry} {frame : String} {project : Project} {message : Json.Members}
    {type id : Json} (read : readFrame frame = .ok message) (asks : Asks message type id) :
    (answerFrame registry frame project).1 =
      match (registry.execute type (.obj message) project).1 with
      | .ok r => .ok (Message.result r).toText
      | .error e => .error (.transform e) := by
  have other : message.says "action" "ping" = false := by
    rw [Bool.eq_false_iff, ne_eq, says_iff, asks.1]
    simp
  unfold answerFrame
  rw [read]
  dsimp only
  rw [other, isTransform_iff.mpr ⟨type, id, asks⟩, asks.2.1]
  simp only [Bool.false_eq_true, if_false, if_true, Option.getD_some]
  rcases registry.execute type (.obj message) project with ⟨e | r, after⟩ <;> rfl

/-- What nests too deep, or asks for a transform by a list or an object, is left without an answer. -/
theorem answerFrame_unanswerable {frame : String} (unanswerable : Unanswerable frame) (registry : Registry)
    (project : Project) : ∃ e, (answerFrame registry frame project).1 = .error e := by
  rcases unanswerable with ⟨e, unread, deep⟩ | ⟨message, type, id, read, asks, compound⟩
  · unfold answerFrame
    rw [unread]
    simp [deep]
  · rw [answerFrame_asked read asks]
    cases outcome : (registry.execute type (.obj message) project).1 with
    | error e => exact ⟨_, rfl⟩
    | ok r => exact absurd compound ((Registry.execute_ok_iff _ _ _ _).mp ⟨r, outcome⟩).1

/-- A frame that can be answered is answered as it is to be. -/
theorem answerFrame_answers {frame : String} (answerable : ¬Unanswerable frame) (project : Project) :
    ∃ answer, (answerFrame Registry.standard frame project).1 = .ok answer ∧ Answers frame answer := by
  unfold Unanswerable at answerable
  cases read : readFrame frame with
  | error e =>
    have answer := Answers.error read
    unfold answerFrame
    rw [read]
    cases e with
    | notObject => exact ⟨_, rfl, answer⟩
    | unreadable e =>
      rw [FrameError.message] at answer
      have shallow : e.fault ≠ .tooDeep := fun deep => answerable (.inl ⟨e, read, deep⟩)
      simp only [shallow, if_false]
      exact ⟨_, rfl, answer⟩
  | ok message =>
    by_cases asked : ∃ type id, Asks message type id
    · obtain ⟨type, id, asks⟩ := asked
      have usable : ¬IsCompound type := fun compound =>
        answerable (.inr ⟨message, type, id, read, asks, compound⟩)
      obtain ⟨r, answered, named⟩ := execute_asked asks project usable
      rw [answerFrame_asked read asks, answered]
      exact ⟨_, rfl, .result read asks named⟩
    · have free : isTransform message = false := by rwa [Bool.eq_false_iff, ne_eq, isTransform_iff]
      unfold answerFrame
      rw [read]
      dsimp only
      by_cases greets : message.says "action" "ping"
      · rw [if_pos greets]
        exact ⟨_, rfl, .pong read (says_iff.mp greets)⟩
      · rw [if_neg greets, free]
        refine ⟨_, rfl, .echo read (fun h => greets (says_iff.mpr h)) ?_⟩
        exact fun type id asks => asked ⟨type, id, asks⟩

/-- A frame that asks for a transform by an empty list. -/
def listFrame : String := "\x7b\"action\": \"transform\", \"id\": \"r\", \"type\": []\x7d"

end Retouch.Service
