import Retouch.Proofs.Project.Faithful

/-!
# What the cache may be seen by

A project that is edited step by step, with its files changed by others in between, should answer each step
as if it had read nothing before. It does so as long as its cache is faithful. The cache stays faithful in
every step but the edits that mix up a text with the reading of another one, so these are exactly the edits
after which the cache may be seen.

## Main statements

* `answers_as_fresh`: with a faithful cache a step answers as with an empty one, and leaves the same files.
* `transparent_iff`: the cache is faithful in all states of a run, and no step shows it, just if no step,
  done over the same files with an empty cache, mixes up a text with the reading of another one.
-/
namespace Retouch.Project

variable {α β : Type}

/-! ### Actions that agree -/

/-- With faithful caches the outcome does not depend on the cache, nor what is left but for the cache. -/
def Agrees (action : Action α) : Prop :=
  ∀ first second : Project, first.reopened = second.reopened → Faithful first.cache →
    Faithful second.cache →
      (first.perform action).1 = (second.perform action).1 ∧
        (first.perform action).2.reopened = (second.perform action).2.reopened

theorem Oblivious.agrees {action : Action α} (oblivious : Oblivious action) : Agrees action :=
  fun _ _ same _ _ => oblivious.alike same

theorem agrees_loadDocument (file : String) : Agrees (loadDocument file) := by
  intro first second same faithful faithful'
  obtain ⟨_, _, _, -, opened, load⟩ := loadDocument_faithful faithful file
  obtain ⟨_, _, _, -, opened', load'⟩ := loadDocument_faithful faithful' file
  have files := (blind_openDocument file).oblivious.alike same
  rw [opened, opened'] at files
  rw [load, load']
  exact files

theorem agrees_loadSheet (file : String) : Agrees (loadSheet file) := by
  intro first second same faithful faithful'
  obtain ⟨_, _, _, -, opened, load⟩ := loadSheet_faithful faithful file
  obtain ⟨_, _, _, -, opened', load'⟩ := loadSheet_faithful faithful' file
  have files := (blind_openSheet file).oblivious.alike same
  rw [opened, opened'] at files
  rw [load, load']
  exact files

/-- Once the file is loaded the cache does not matter. -/
theorem Agrees.bind_oblivious {first : Action α} {next : α → Action β} (early : Agrees first)
    (late : ∀ a, Oblivious (next a)) : Agrees (first >>= next) := by
  intro project other same faithful faithful'
  have start := early project other same faithful faithful'
  rw [perform_bind, perform_bind]
  rcases outcome : project.perform first with ⟨e | a, after⟩ <;>
    rcases outcome' : other.perform first with ⟨e' | a', after'⟩ <;>
    simp only [outcome, outcome', Except.error.injEq, Except.ok.injEq, reduceCtorEq, false_and] at start
  · obtain ⟨rfl, same⟩ := start
    exact ⟨rfl, same⟩
  · obtain ⟨rfl, same⟩ := start
    exact (late a).alike same

/-- Before the file is loaded the cache is not touched. -/
theorem Blind.bind_agrees {first : Action α} {next : α → Action β} (early : Blind first)
    (late : ∀ a, Agrees (next a)) : Agrees (first >>= next) := by
  intro project other same faithful faithful'
  have start := early.oblivious.alike same
  rw [perform_bind, perform_bind]
  rcases outcome : project.perform first with ⟨e | a, after⟩ <;>
    rcases outcome' : other.perform first with ⟨e' | a', after'⟩ <;>
    simp only [outcome, outcome', Except.error.injEq, Except.ok.injEq, reduceCtorEq, false_and] at start
  · obtain ⟨rfl, same⟩ := start
    exact ⟨rfl, same⟩
  · obtain ⟨rfl, same⟩ := start
    have kept := early.cache_of outcome
    have kept' := early.cache_of outcome'
    exact late a after after' same (kept ▸ faithful) (kept' ▸ faithful')

/-! ### Edits agree -/

theorem agrees_find (file : String) (line column : Int) : Agrees (find file line column) := by
  unfold find
  exact (agrees_loadDocument file).bind_oblivious fun _ => (Blind.lift _ _).oblivious

theorem agrees_readText (file : String) (line column : Int) : Agrees (readText file line column) := by
  unfold readText
  refine (agrees_find file line column).bind_oblivious fun found => Blind.oblivious ?_
  split
  · exact .pure _
  · exact .refuse _ _ _

theorem agrees_updateText (target : SourceLocator) (prior new requestId : String) :
    Agrees (updateText target prior new requestId) := by
  unfold updateText
  refine (agrees_loadDocument target.file).bind_oblivious fun (path, kept) => ?_
  refine .bind (Blind.lift _ _).oblivious fun updated => ?_
  exact .bind (blind_requireSound _ _ _).oblivious fun _ => oblivious_commit _ _ _ _ _ _ _ _ _

theorem agrees_editSheet (target : SourceLocator) (kind : TransformKind) (requestId : String)
    (edit : SheetEdit) : Agrees (editSheet target kind requestId edit) := by
  unfold editSheet
  refine (blind_targetSelector target).bind_agrees fun selector => ?_
  refine (agrees_loadSheet target.styleFile).bind_oblivious fun (path, kept) => ?_
  refine .tryCatch ?_ fun e => ?_
  · refine .bind (.modifyCache _) fun _ => .bind (blind_ofOutcome _).oblivious fun previous => ?_
    refine .bind (blind_requireSound _ _ _).oblivious fun _ => ?_
    exact .bind (oblivious_commit _ _ _ _ _ _ _ _ _) fun _ => (Blind.pure _).oblivious
  · dsimp only
    split
    · exact .bind (.modifyCache _) fun _ => (Blind.throw _).oblivious
    · exact (Blind.throw _).oblivious

/-! ### Actions that keep a cache faithful -/

/-- An action after which a faithful cache is faithful again. -/
def KeepsFaith (action : Action α) : Prop :=
  ∀ project : Project, Faithful project.cache → Faithful (project.perform action).2.cache

namespace KeepsFaith

theorem of_blind {action : Action α} (blind : Blind action) : KeepsFaith action := by
  intro project faithful
  rwa [blind.cache_eq]

theorem bind {first : Action α} {next : α → Action β} (early : KeepsFaith first)
    (late : ∀ a, KeepsFaith (next a)) : KeepsFaith (first >>= next) := by
  intro project faithful
  have start := early project faithful
  rw [perform_bind]
  rcases outcome : project.perform first with ⟨e | a, after⟩
  · rw [outcome] at start
    exact start
  · rw [outcome] at start
    exact late a after start

theorem modifyCache {change : Cache → Cache} (kept : ∀ cache, Faithful cache → Faithful (change cache)) :
    KeepsFaith (modifyCache change) := fun project faithful => kept project.cache faithful

theorem loadDocument (file : String) : KeepsFaith (loadDocument file) := by
  intro project faithful
  obtain ⟨_, _, _, loaded, -, load⟩ := loadDocument_faithful faithful file
  rw [load]
  exact loaded

theorem find (file : String) (line column : Int) : KeepsFaith (find file line column) := by
  unfold Project.find
  exact .bind (.loadDocument file) fun _ => .of_blind (.lift _ _)

theorem readText (file : String) (line column : Int) : KeepsFaith (readText file line column) := by
  unfold Project.readText
  refine .bind (.find file line column) fun found => .of_blind ?_
  split
  · exact .pure _
  · exact .refuse _ _ _

theorem forget (names : List String) : KeepsFaith (forget names) := by
  induction names with
  | nil => exact .of_blind (.pure _)
  | cons name rest ih =>
    intro project faithful
    unfold Project.forget
    rw [perform_bind_ok _ (perform_get _)]
    exact KeepsFaith.bind (.modifyCache fun _ kept => faithful_drop kept _) (fun _ => ih) project faithful

theorem undo (id : String) : KeepsFaith (undo id) := by
  unfold Project.undo
  refine .bind (.of_blind (blind_transaction? id)) fun found => ?_
  split
  · exact .of_blind (.pure _)
  · refine .bind (.of_blind (.lift _ _)) fun patches => ?_
    refine .bind (.of_blind (blind_applyPatches _ _)) fun done => ?_
    exact .bind (.forget _) fun _ => .of_blind (.pure _)

end KeepsFaith

/-! ### Steps -/

/-- What can be done with a project, and what others can do to its files. -/
inductive Step where
  | updateText (target : SourceLocator) (prior new requestId : String)
  | updateStyle (target : SourceLocator) (property : String) (prior new : Style.Value) (requestId : String)
  | addStyle (target : SourceLocator) (property : String) (prior : Option Style.Value) (new : Style.Value)
      (requestId : String)
  | removeStyle (target : SourceLocator) (property : String) (prior : Style.Value) (requestId : String)
  | find (file : String) (line column : Int)
  | readText (file : String) (line column : Int)
  | invalidate (path : Files.Path)
  | invalidateAll
  | undo (id : String)
  /-- Files are written and deleted by others: the disk is any other one. -/
  | change (disk : Files.Disk)

/-- What a step answers. How many readings were forgotten is no answer, as it is about the cache itself. -/
inductive Answer where
  | edited (edited : Edited)
  | element (found : Option Markup.Element)
  | text (text : String)
  | undone (undone : Undone)
  | done

namespace Step

def action : Step → Action Answer
  | updateText target prior new requestId =>
    Project.updateText target prior new requestId >>= fun edited => pure (.edited edited)
  | updateStyle target property prior new requestId =>
    Project.updateStyle target property prior new requestId >>= fun edited => pure (.edited edited)
  | addStyle target property prior new requestId =>
    Project.addStyle target property prior new requestId >>= fun edited => pure (.edited edited)
  | removeStyle target property prior requestId =>
    Project.removeStyle target property prior requestId >>= fun edited => pure (.edited edited)
  | find file line column => Project.find file line column >>= fun found => pure (.element found)
  | readText file line column => Project.readText file line column >>= fun text => pure (.text text)
  | invalidate path => Project.invalidate path >>= fun _ => pure .done
  | invalidateAll => Project.invalidateAll >>= fun _ => pure .done
  | undo id => Project.undo id >>= fun undone => pure (.undone undone)
  | change disk => modify (fun project => { project with disk }) >>= fun _ => pure .done

/-- Whether the step mixes up a text with the reading of another one. -/
def Mixes (project : Project) : Step → Prop
  | updateText target prior new requestId => MixesText project target prior new requestId
  | updateStyle target property prior new requestId =>
    MixesSheet project target .cssUpdate requestId (updating property prior new)
  | addStyle target property prior new requestId =>
    MixesSheet project target .cssAdd requestId (adding property prior new)
  | removeStyle target property prior requestId =>
    MixesSheet project target .cssRemove requestId (removing property prior)
  | _ => False

end Step

private theorem perform_answer (project : Project) (action : Action α) (wrap : α → Answer) :
    (project.perform (action >>= fun a => pure (wrap a))).2 = (project.perform action).2 := by
  rw [perform_bind]
  rcases project.perform action with ⟨_ | _, after⟩ <;> rfl

/-- With faithful caches a step answers the same and leaves the same files. -/
theorem agrees_step (step : Step) : Agrees step.action := by
  have answer {α : Type} {action : Action α} (wrap : α → Answer) (agrees : Agrees action) :
      Agrees (action >>= fun a => pure (wrap a)) :=
    agrees.bind_oblivious fun _ => (Blind.pure _).oblivious
  cases step with
  | updateText target prior new requestId => exact answer _ (agrees_updateText _ _ _ _)
  | updateStyle target property prior new requestId => exact answer _ (agrees_editSheet _ _ _ _)
  | addStyle target property prior new requestId => exact answer _ (agrees_editSheet _ _ _ _)
  | removeStyle target property prior requestId => exact answer _ (agrees_editSheet _ _ _ _)
  | find file line column => exact answer _ (agrees_find _ _ _)
  | readText file line column => exact answer _ (agrees_readText _ _ _)
  | invalidate path => exact fun _ _ same _ _ => ⟨rfl, same⟩
  | invalidateAll => exact fun _ _ same _ _ => ⟨rfl, same⟩
  | undo id => exact answer _ (oblivious_undo id).agrees
  | change disk =>
    exact fun _ _ same _ _ => ⟨rfl, congrArg (fun project : Project => { project with disk }) same⟩

/-- A step leaves a faithful cache unless it mixes up a text with the reading of another one. -/
theorem step_faithful_iff {project : Project} (faithful : Faithful project.cache) (step : Step) :
    Faithful (project.perform step.action).2.cache ↔ ¬step.Mixes project := by
  have never {action : Action Answer} (kept : KeepsFaith action) :
      Faithful (project.perform action).2.cache ↔ ¬False := iff_of_true (kept project faithful) id
  cases step with
  | updateText target prior new requestId =>
    rw [Step.action, perform_answer]
    exact updateText_faithful_iff faithful _ _ _ _
  | updateStyle target property prior new requestId =>
    rw [Step.action, perform_answer]
    exact editSheet_faithful_iff faithful _ _ _ _
  | addStyle target property prior new requestId =>
    rw [Step.action, perform_answer]
    exact editSheet_faithful_iff faithful _ _ _ _
  | removeStyle target property prior requestId =>
    rw [Step.action, perform_answer]
    exact editSheet_faithful_iff faithful _ _ _ _
  | find file line column => exact never (.bind (.find _ _ _) fun _ => .of_blind (.pure _))
  | readText file line column => exact never (.bind (.readText _ _ _) fun _ => .of_blind (.pure _))
  | invalidate path => exact iff_of_true (faithful_drop faithful _) id
  | invalidateAll => exact iff_of_true (faithful_clear _) id
  | undo id => exact never (.bind (.undo id) fun _ => .of_blind (.pure _))
  | change disk => exact iff_of_true faithful id

/-! ### Runs -/

/-- Whether a step answers as with an empty cache over the same files, and leaves the same files. -/
def AnswersAsFresh (project : Project) (step : Step) : Prop :=
  (project.perform step.action).1 = (project.reopened.perform step.action).1 ∧
    (project.perform step.action).2.reopened = (project.reopened.perform step.action).2.reopened

/-- With a faithful cache a step answers as with an empty one. -/
theorem answers_as_fresh {project : Project} (faithful : Faithful project.cache) (step : Step) :
    AnswersAsFresh project step :=
  agrees_step step project project.reopened rfl faithful faithful_empty

/-- Whether the cache is faithful in all states of a run, and no step shows it. -/
def Transparent (project : Project) : List Step → Prop
  | [] => Faithful project.cache
  | step :: rest => Faithful project.cache ∧ AnswersAsFresh project step ∧
      Transparent (project.perform step.action).2 rest

/-- Whether no step of a run mixes up a text with the reading of another one, when each step is done over
the same files with an empty cache. -/
def Unmixed (project : Project) : List Step → Prop
  | [] => True
  | step :: rest => ¬step.Mixes project.reopened ∧
      Unmixed (project.reopened.perform step.action).2 rest

theorem Transparent.faithful {project : Project} {steps : List Step} (h : Transparent project steps) :
    Faithful project.cache := by
  cases steps with
  | nil => exact h
  | cons step rest => exact h.1

/-- What a run mixes up does not depend on the cache. -/
theorem unmixed_congr {first second : Project} (same : first.reopened = second.reopened)
    (steps : List Step) : Unmixed first steps ↔ Unmixed second steps := by
  cases steps with
  | nil => exact Iff.rfl
  | cons step rest => rw [Unmixed, Unmixed, same]

/-- With a faithful cache a step mixes up the same as with an empty one. -/
theorem mixes_reopened {project : Project} (faithful : Faithful project.cache) (step : Step) :
    step.Mixes project ↔ step.Mixes project.reopened := by
  have text {target : SourceLocator} {prior new requestId : String} :
      MixesText project target prior new requestId ↔
        MixesText project.reopened target prior new requestId := by
    have opened := ((blind_openDocument target.file).oblivious project {}).1
    have answered := (agrees_updateText target prior new requestId project project.reopened rfl faithful
      faithful_empty).1
    unfold MixesText
    rw [answered, ← opened]
    rfl
  have sheet {target : SourceLocator} {kind : TransformKind} {requestId : String} {edit : SheetEdit} :
      MixesSheet project target kind requestId edit ↔
        MixesSheet project.reopened target kind requestId edit := by
    have opened := ((blind_openSheet target.styleFile).oblivious project {}).1
    have answered := (agrees_editSheet target kind requestId edit project project.reopened rfl faithful
      faithful_empty).1
    unfold MixesSheet
    rw [answered, ← opened]
    rfl
  cases step with
  | updateText target prior new requestId => exact text
  | updateStyle target property prior new requestId => exact sheet
  | addStyle target property prior new requestId => exact sheet
  | removeStyle target property prior requestId => exact sheet
  | _ => exact Iff.rfl

private theorem transparent_iff_of_faithful {project : Project} (faithful : Faithful project.cache)
    (steps : List Step) : Transparent project steps ↔ Unmixed project steps := by
  induction steps generalizing project with
  | nil => exact iff_of_true faithful trivial
  | cons step rest ih =>
    have fresh := answers_as_fresh faithful step
    have after := step_faithful_iff faithful step
    rw [mixes_reopened faithful] at after
    have files : Unmixed (project.perform step.action).2 rest ↔
        Unmixed (project.reopened.perform step.action).2 rest := unmixed_congr fresh.2 rest
    rw [Transparent, Unmixed, ← files]
    constructor
    · rintro ⟨-, -, later⟩
      exact ⟨after.mp later.faithful, (ih later.faithful).mp later⟩
    · rintro ⟨unmixed, later⟩
      exact ⟨faithful, fresh, (ih (after.mpr unmixed)).mpr later⟩

/-- From an empty cache on, the cache is faithful in all states of a run and no step shows it, just if no
step mixes up a text with the reading of another one. -/
theorem transparent_iff (project : Project) (steps : List Step) :
    Transparent project.reopened steps ↔ Unmixed project steps :=
  (transparent_iff_of_faithful faithful_empty steps).trans 
    (@unmixed_congr project.reopened project rfl steps)

/-- The project after a run. -/
def run (project : Project) (steps : List Step) : Project :=
  steps.foldl (fun project step => (project.perform step.action).2) project

/-- A page with two elements, whose lines end in pairs. -/
def pairedProject : Project where
  root := .ofText "/page"
  disk :=
    { nodes := [(["page"], .folder),
        (["page", "a.tsx"],
          .file ⟨Text.Utf8.encode "const a = <p>x</p>;\r\nconst b = <b>y</b>;\r\n".toList, 0⟩)]
      writes := 1 }

/-- An edit that puts a line feed into the first element. -/
def feedStep : Step := .updateText ⟨"a.tsx", 1, 11, "", []⟩ "x" "1\n2" "1"

/-- An edit of the second element, which is one line further down by then. -/
def laterStep : Step := .updateText ⟨"a.tsx", 3, 11, "", []⟩ "y" "z" "2"

/-- The cache may show: after the first edit the second one fails, while it is made with an empty cache. -/
theorem cache_shows :
    ∃ (project : Project) (steps : List Step) (step : Step),
      ¬AnswersAsFresh (run project.reopened steps) step ∧
        ¬Transparent project.reopened (steps ++ [step]) := by
  have kept : ((run pairedProject.reopened [feedStep]).perform laterStep.action).1.toOption.isSome = false := by
    decide +kernel
  have fresh :
      ((run pairedProject.reopened [feedStep]).reopened.perform laterStep.action).1.toOption.isSome = true := by
    decide +kernel
  have shown : ¬AnswersAsFresh (run pairedProject.reopened [feedStep]) laterStep := by
    intro same
    rw [same.1, fresh] at kept
    cases kept
  exact ⟨pairedProject, [feedStep], laterStep, shown, fun transparent => shown transparent.2.2.2.1⟩

end Retouch.Project
