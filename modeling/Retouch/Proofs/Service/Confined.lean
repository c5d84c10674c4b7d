import Retouch.Proofs.Project.Confined
import Retouch.Proofs.Service.History
import Retouch.Proofs.Service.Undo

/-!
# Transforms stay in the project

Whatever was done with a project before, a transform writes only the file that it is about, drafts of that file next
to it, copies and records, and all of these lie in the folder of the project. A transform of a file whose path leads
out of the project, by steps back, from the root of the disk or otherwise, is refused without regard to what the disk
holds.

## Main statements

* `execute_barred`: the refusal depends on the folder of the project only.
* `confined_throughout`: whatever is done in turn, every transform that follows is confined to the project.
-/
namespace Retouch.Service

open Project

namespace Registry

/-- A transform does to a project what its edit does, or nothing. -/
theorem after_execute (project : Project) (type input : Json) :
    (standard.execute type input project).2 = project ∨
      ∃ request, Accepts type input request ∧
        (standard.execute type input project).2 = (project.perform (edit request)).2 := by
  rcases answered : standard.execute type input project with ⟨answer, after⟩
  rcases execute_cases answered with
    ⟨-, same, -⟩ | ⟨request, accepted, ⟨e, broken, -⟩ | ⟨edited, result, done, -⟩⟩
  · exact .inl same.symm
  · exact .inr ⟨request, accepted, by rw [broken]⟩
  · exact .inr ⟨request, accepted, by rw [done]⟩

/-! ### Refusals -/

/-- The answer says that the request is not valid; a path with a null character has no better answer than a fault. -/
structure Refusal (file : String) (result : TransformResult) (error : TransformError) : Prop where
  failed : result.success = false
  told : result.error = some error
  code : error.code = .validationError ∨ '\x00' ∈ file.toList ∧ error.code = .internalError

theorem refusal_ofError {file : String} {e : ProjectError} (refuses : Refuses file e) (id : String) :
    ∃ result error, Refusal file result error ∧ ofError id e = .ok result := by
  rcases refuses with rfl | ⟨message, details, rfl⟩
  · unfold outsideError
    split
    · rename_i nul
      exact ⟨_, _, ⟨rfl, rfl, .inr ⟨by simpa using nul, rfl⟩⟩, rfl⟩
    · exact ⟨_, _, ⟨rfl, rfl, .inl rfl⟩, rfl⟩
  · exact ⟨_, _, ⟨rfl, rfl, .inl rfl⟩, rfl⟩

/-- A transform of a file outside the project is refused in every project over the same folder alike, and changes
nothing. -/
theorem execute_barred {root : Files.Path} {type input : Json} {request : Request}
    (accepted : Accepts type input request) (escapes : Escapes root (editedFile request)) :
    ∃ result error, Refusal (editedFile request) result error ∧
      ∀ project : Project, project.root = root → standard.execute type input project = (.ok result, project) := by
  obtain ⟨e, refuses, bars⟩ := barred_edit escapes
  obtain ⟨result, error, refusal, answered⟩ := refusal_ofError refuses request.id
  refine ⟨result, error, refusal, fun project same => ?_⟩
  have stops : project.perform (apply request) = (.error e, project) := bars.bind _ project same
  rw [execute_accepted accepted project, stops]
  exact congrArg (·, project) answered

end Registry

/-! ### One transform -/

/-- The transform is confined to the folder of the project. -/
structure Confines (project : Project) (type input : Json) : Prop where
  /-- What is changed is the file that the transform is about, a draft next to it, a copy, a record, or a folder on the
  way to those; and it lies in the project, at a path in normal form. -/
  changes : ∀ place,
    (Registry.standard.execute type input project).2.disk.node? place ≠ project.disk.node? place →
      project.root.names <+: place ∧ Seated ⟨true, place⟩ ∧ ∃ request, Registry.Accepts type input request ∧
        Affects project.root (project.resolve (editedFile request)) project.disk
          (Registry.standard.execute type input project).2.disk place
  /-- A file outside the project is refused by an answer that takes nothing but the folder of the project into
  account, and nothing is changed. -/
  refuses : ∀ request, Registry.Accepts type input request → Escapes project.root (editedFile request) →
    ∃ result error, Registry.Refusal (editedFile request) result error ∧
      ∀ other : Project, other.root = project.root →
        Registry.standard.execute type input other = (.ok result, other)

theorem confines_of_standing {project : Project} (seated : Seated project.root) (standing : Standing project)
    (type input : Json) : Confines project type input where
  refuses _ accepted escapes := Registry.execute_barred accepted escapes
  changes place changed := by
    rcases Registry.after_execute project type input with same | ⟨request, accepted, same⟩
    · rw [same] at changed
      exact absurd rfl changed
    · by_cases escapes : Escapes project.root (editedFile request)
      -- A change of a file outside would contradict that it is refused.
      · obtain ⟨_, _, -, barred⟩ := Registry.execute_barred accepted escapes
        rw [barred project rfl] at changed
        exact absurd rfl changed
      · rw [same] at changed ⊢
        obtain ⟨inside, normal⟩ := inside_edit seated standing (Classical.not_not.mp escapes) changed
        exact ⟨inside, normal, request, accepted, (confined_edit seated.proper.absolute request).places place⟩

/-! ### Everything that is done -/

/-- What is done once with a project leaves it over its folder. -/
theorem Deed.root_step (s : Session) (deed : Deed) : (deed.step s).project.root = s.project.root := by
  cases deed with
  | transform type input =>
    have same : (Registry.standard.execute type input s.project).2.root = s.project.root := by
      rcases Registry.after_execute s.project type input with same | ⟨request, -, same⟩
      · rw [same]
      · rw [same]
        exact frame_sameRoot.edit_at fun _ _ => keeping_sameRoot _
    unfold step
    dsimp only
    rcases answered : Registry.standard.execute type input s.project with ⟨e | result, after⟩ <;>
      (rw [answered] at same; exact same)
  | undo id => exact frame_sameRoot.undo keeping_sameRoot id s.project
  | clear keep => rfl
  | meanwhile disk cache now => rfl

theorem root_run (deeds : List Deed) (s : Session) : (run deeds s).project.root = s.project.root := by
  induction deeds generalizing s with
  | nil => rfl
  | cons deed rest ih => exact (ih (deed.step s)).trans (deed.root_step s)

/-- Whatever is done in turn with a project, every transform that follows is confined to the project, as long as its
folder is there. -/
theorem confined_throughout {s : Session} (seated : Seated s.project.root) (deeds : List Deed)
    (standing : Standing (run deeds s).project) (type input : Json) : Confines (run deeds s).project type input :=
  confines_of_standing ((root_run deeds s).symm ▸ seated) standing type input

/-- A request to edit a file in a folder beside the project, whose name begins like that of the project's folder. -/
def siblingRequest : Json :=
  .obj [("id", .str "1"),
    ("target", .obj [("file", .str "..//pages/./a.tsx"), ("lineNumber", .int 1), ("column", .int 1)]),
    ("change", .obj [("originalText", .str "z"), ("newText", .str "v")])]

/-- A transform, and the attempt to undo another one. -/
def turnedDeeds : List Deed := [.transform (.str "text-update") (letterRequest "x" "z"), .undo "tx2"]

/-- After what was done with the page, a transform of it changes its file, and one of a file beside the project is
refused. -/
theorem confined_throughout_turned :
    Confines (run turnedDeeds ⟨pageProject lineText, []⟩).project (.str "text-update") (letterRequest "z" "v") ∧
      (Registry.standard.execute (.str "text-update") (letterRequest "z" "v")
        (run turnedDeeds ⟨pageProject lineText, []⟩).project).2.disk.bytes? ["page", "a.tsx"] =
          some (Text.Utf8.encode "<p>v</p>;\n<b>y</b>;\n".toList) ∧
      ∃ result error, Registry.Refusal "..//pages/./a.tsx" result error ∧
        ∀ other : Project, other.root = .ofText "/page" →
          Registry.standard.execute (.str "text-update") siblingRequest other = (.ok result, other) := by
  have seated : Seated (pageProject lineText).root :=
    ⟨⟨by decide, fun name member => Files.Path.name_of_ofText member⟩, by decide⟩
  have standing : Standing (run turnedDeeds ⟨pageProject lineText, []⟩).project := by decide +kernel
  have confined (input : Json) :
      Confines (run turnedDeeds ⟨pageProject lineText, []⟩).project (.str "text-update") input :=
    confined_throughout seated turnedDeeds standing (.str "text-update") input
  refine ⟨confined _, by decide +kernel, ?_⟩
  have file : ((Wire.request .textUpdate siblingRequest).result (Wire.requestTitle .textUpdate)).toOption.map editedFile =
      some "..//pages/./a.tsx" := by decide +kernel
  cases read : (Wire.request .textUpdate siblingRequest).result (Wire.requestTitle .textUpdate) with
  | error r =>
    rw [read] at file
    cases file
  | ok request =>
    rw [read] at file
    have named : editedFile request = "..//pages/./a.tsx" := Option.some.inj file
    have root : (run turnedDeeds ⟨pageProject lineText, []⟩).project.root = .ofText "/page" := root_run _ _
    have escapes : Escapes (run turnedDeeds ⟨pageProject lineText, []⟩).project.root (editedFile request) := by
      rw [root, named]
      decide
    obtain ⟨result, error, refusal, refused⟩ := (confined siblingRequest).refuses request ⟨_, rfl, read⟩ escapes
    rw [named] at refusal
    exact ⟨result, error, refusal, fun other same => refused other (same.trans root.symm)⟩

end Retouch.Service
