import Retouch.Proofs.Files.Disk
import Retouch.Proofs.Project.Oblivious
import Retouch.Proofs.Project.Perform

/-!
# Faithful caches

A cache is faithful when each file in it is kept with what its kept text is read as. A file is then loaded
from it as it would be read anew. An edit keeps what it has written under the text as it was written, line
breaks included, and a style edit keeps the changed sheet under the old text while it is under way; from
this follows which edits leave a faithful cache.

## Main statements

* `loadDocument_faithful` and `loadSheet_faithful`: from a faithful cache a file is loaded as if anew.
* `updateText_faithful_iff` and `editSheet_faithful_iff`: an edit leaves a faithful cache unless it mixes up
  a text with the reading of another one.
-/
namespace Retouch

/-! ### Suffixes of paths -/

namespace Files

/-- The suffix of a path in small letters, by its last name. -/
def Path.suffix (p : Path) : String := String.ofList (Text.lowerChars (suffixOfName p.lastName.toList))

/-- A last name that does not lead back stays the last name. -/
theorem Path.follow_concat (here names : List String) {last : String} (forward : last ≠ back) :
    follow here (names ++ [last]) = follow here names ++ [last] := by
  induction names generalizing here with
  | nil => simp [follow, forward]
  | cons name rest ih =>
    simp only [List.cons_append, follow]
    split
    · exact ih _
    · exact ih _

/-- A file that has a suffix has it wherever a path to it starts. -/
theorem Path.suffix_normal (front : Path) (file : String) (marked : Files.suffix file ≠ "") :
    (front.join (.ofText file)).normal.suffix = Files.suffix file := by
  unfold Files.suffix Files.lastName at marked ⊢
  rcases List.eq_nil_or_concat (pathNames file.toList) with none | ⟨start, last, names⟩
  · rw [none] at marked
    exact absurd (by decide) marked
  · rw [names, List.concat_eq_append, List.getLastD_concat] at marked ⊢
    have forward : String.ofList last ≠ back := by
      intro same
      have back_eq : last = back.toList := by rw [← same, String.toList_ofList]
      rw [back_eq] at marked
      exact absurd (by decide) marked
    obtain ⟨before, joined⟩ : ∃ before, (front.join (.ofText file)).names = before ++ [String.ofList last] := by
      unfold join ofText
      rw [names]
      split
      · exact ⟨start.map String.ofList, by simp⟩
      · exact ⟨front.names ++ start.map String.ofList, by simp⟩
    unfold suffix lastName normal
    rw [joined, follow_concat _ _ forward, List.getLastD_concat, String.toList_ofList]

end Files

namespace Project

/-! ### Faithful caches -/

/-- The language of a markup file. -/
def languageOf (path : Files.Path) : Option Markup.Language :=
  (Markup.Language.suffixes.find? fun entry => entry.1 == path.suffix).map Prod.snd

theorem languageOf_resolve {file : String} {language : Markup.Language} (project : Project)
    (known : Markup.Language.ofPath? file = some language) :
    languageOf (project.resolve file) = some language := by
  have marked : Files.suffix file ≠ "" := by
    intro blank
    rw [Markup.Language.ofPath?, blank] at known
    revert known
    simp [Markup.Language.suffixes]
  unfold languageOf resolve
  rw [Files.Path.suffix_normal _ _ marked]
  exact known

/-- Each kept text is kept with what it is read as. -/
structure Faithful (cache : Cache) : Prop where
  documents : ∀ path kept, Table.get? cache.documents path = some kept →
    ∃ language, languageOf path = some language ∧ kept.parsed = .ofChars language kept.text
  sheets : ∀ path kept, Table.get? cache.sheets path = some kept → kept.parsed = .ofChars kept.text

theorem faithful_empty : Faithful {} := ⟨by simp, by simp⟩

theorem faithful_drop {cache : Cache} (faithful : Faithful cache) (path : Files.Path) :
    Faithful (cache.drop path) := by
  constructor
  · intro other kept found
    simp only [Cache.drop, Table.get?_drop] at found
    split at found
    · cases found
    · exact faithful.documents other kept found
  · intro other kept found
    simp only [Cache.drop, Table.get?_drop] at found
    split at found
    · cases found
    · exact faithful.sheets other kept found

theorem faithful_clear (cache : Cache) : Faithful cache.clear := ⟨by simp [Cache.clear], by simp [Cache.clear]⟩

theorem faithful_keepDocument_iff {cache : Cache} (faithful : Faithful cache) (path : Files.Path)
    (kept : Cached Markup.Document) :
    Faithful (keepDocument path kept cache) ↔
      ∃ language, languageOf path = some language ∧ kept.parsed = .ofChars language kept.text := by
  constructor
  · intro after
    exact after.documents path kept (by simp [keepDocument, Table.get?_put])
  · intro read
    refine ⟨fun other found there => ?_, faithful.sheets⟩
    simp only [keepDocument, Table.get?_put] at there
    split at there
    · rename_i same
      subst same
      cases there
      exact read
    · exact faithful.documents other found there

theorem faithful_keepSheet_iff {cache : Cache} (faithful : Faithful cache) (path : Files.Path)
    (kept : Cached Sheet) :
    Faithful (keepSheet path kept cache) ↔ kept.parsed = .ofChars kept.text := by
  constructor
  · intro after
    exact after.sheets path kept (by simp [keepSheet, Table.get?_put])
  · intro read
    refine ⟨faithful.documents, fun other found there => ?_⟩
    simp only [keepSheet, Table.get?_put] at there
    split at there
    · rename_i same
      subst same
      cases there
      exact read
    · exact faithful.sheets other found there

/-- A sheet is what its text is read as. -/
theorem sheet_eq_ofChars_iff (sheet : Sheet) (text : List Char) : sheet = .ofChars text ↔ sheet.source = text := by
  constructor
  · rintro rfl
    rfl
  · rintro rfl
    obtain ⟨source, content, read⟩ := sheet
    cases read
    rfl

/-! ### Loading from a faithful cache -/

/-- Reads a document without a cache. -/
def openDocument (file : String) : Action (Files.Path × Cached Markup.Document) := do
  match Markup.Language.ofPath? file with
  | none => refuse .validationError ("Unsupported markup file type: " ++ file) (naming file)
  | some language =>
    let (path, text) ← readSource file
    return (path, ⟨text, .ofChars language text⟩)

/-- Reads a sheet without a cache. -/
def openSheet (file : String) : Action (Files.Path × Cached Sheet) := do
  if file = "" then refuse .validationError "Target has no style file" none
  if Files.suffix file ≠ Files.styleSuffix then
    refuse .validationError ("Unsupported style file type: " ++ file) (naming file)
  let (path, text) ← readSource file
  return (path, ⟨text, .ofChars text⟩)

theorem blind_openDocument (file : String) : Blind (openDocument file) := by
  unfold openDocument
  split
  · exact .refuse _ _ _
  · exact .bind (blind_readSource file) fun _ => .pure _

theorem blind_openSheet (file : String) : Blind (openSheet file) := by
  unfold openSheet
  refine .guard (.refuse _ _ _) (.guard (.refuse _ _ _) ?_)
  exact .bind (blind_readSource file) fun _ => .pure _

/-- From a faithful cache a document is loaded as if read anew, and the cache is faithful again. -/
theorem loadDocument_faithful {project : Project} (faithful : Faithful project.cache) (file : String) :
    ∃ cache result after, Faithful cache ∧ project.perform (openDocument file) = (result, after) ∧
      project.perform (loadDocument file) = (result, { after with cache }) := by
  unfold loadDocument openDocument
  cases known : Markup.Language.ofPath? file with
  | none => exact ⟨project.cache, _, project, faithful, rfl, rfl⟩
  | some language =>
    dsimp only
    rw [perform_bind, perform_bind]
    have kept := (blind_readSource file).cache_eq project
    rcases outcome : project.perform (readSource file) with ⟨e | ⟨path, text⟩, after⟩
    · rw [outcome] at kept
      exact ⟨after.cache, _, after, kept ▸ faithful, rfl, rfl⟩
    · obtain ⟨rfl, rfl, -⟩ := readSource_eq_ok outcome
      dsimp only
      rw [perform_bind_ok _ (perform_get _)]
      have lang := languageOf_resolve project known
      split
      · rename_i found fresh
        obtain ⟨language', known', read⟩ := faithful.documents _ _ (fresh?_eq_some.mp fresh)
        rw [lang] at known'
        cases known'
        have same : found = .ofChars language text := read
        subst same
        exact ⟨{ project.cache with hits := project.cache.hits + 1 }, _, project,
          ⟨faithful.documents, faithful.sheets⟩, rfl, rfl⟩
      · have read := (faithful_keepDocument_iff faithful (project.resolve file)
          ⟨text, .ofChars language text⟩).mpr ⟨language, lang, rfl⟩
        exact ⟨{ project.cache with
            documents := Table.put project.cache.documents (project.resolve file)
              ⟨text, .ofChars language text⟩
            misses := project.cache.misses + 1 }, _, project, ⟨read.documents, read.sheets⟩, rfl, rfl⟩

/-- From a faithful cache a sheet is loaded as if read anew, and the cache is faithful again. -/
theorem loadSheet_faithful {project : Project} (faithful : Faithful project.cache) (file : String) :
    ∃ cache result after, Faithful cache ∧ project.perform (openSheet file) = (result, after) ∧
      project.perform (loadSheet file) = (result, { after with cache }) := by
  unfold loadSheet openSheet
  by_cases unnamed : file = ""
  · simp only [if_pos unnamed]
    exact ⟨project.cache, _, project, faithful, rfl, rfl⟩
  · by_cases other : Files.suffix file ≠ Files.styleSuffix
    · simp only [if_neg unnamed, if_pos other]
      exact ⟨project.cache, _, project, faithful, rfl, rfl⟩
    · simp only [if_neg unnamed, if_neg other]
      rw [perform_bind, perform_bind]
      have kept := (blind_readSource file).cache_eq project
      rcases outcome : project.perform (readSource file) with ⟨e | ⟨path, text⟩, after⟩
      · rw [outcome] at kept
        exact ⟨after.cache, _, after, kept ▸ faithful, rfl, rfl⟩
      · obtain ⟨rfl, rfl, -⟩ := readSource_eq_ok outcome
        dsimp only
        rw [perform_bind_ok _ (perform_get _)]
        split
        · rename_i found fresh
          have same : found = .ofChars text := faithful.sheets _ _ (fresh?_eq_some.mp fresh)
          subst same
          exact ⟨{ project.cache with hits := project.cache.hits + 1 }, _, project,
            ⟨faithful.documents, faithful.sheets⟩, rfl, rfl⟩
        · have read := (faithful_keepSheet_iff faithful (project.resolve file)
            ⟨text, .ofChars text⟩).mpr rfl
          exact ⟨{ project.cache with
            sheets := Table.put project.cache.sheets (project.resolve file) ⟨text, .ofChars text⟩
            misses := project.cache.misses + 1 }, _, project, ⟨read.documents, read.sheets⟩, rfl, rfl⟩

/-! ### Edits of texts -/

/-- Whether writing a text with the line breaks of another one gives another text. -/
def ChangesBreaks (before updated : List Char) : Prop :=
  (Text.LineBreak.ofText before).apply updated ≠ updated

/-- Whether an edited text is written with other line breaks than it has, so that what it is read as belongs
to a text that the file does not hold. -/
def MixesText (project : Project) (target : SourceLocator) (prior new requestId : String) : Prop :=
  ∃ path kept updated edited,
    (project.perform (openDocument target.file)).1 = .ok (path, kept) ∧
      kept.parsed.updateText kept.text target.line target.column prior new = .ok updated ∧
      (project.perform (updateText target prior new requestId)).1 = .ok edited ∧
      ChangesBreaks kept.text updated

theorem openDocument_eq_ok {project after : Project} {file : String} {path : Files.Path}
    {kept : Cached Markup.Document} (done : project.perform (openDocument file) = (.ok (path, kept), after)) :
    ∃ language, languageOf path = some language ∧ kept.parsed = .ofChars language kept.text := by
  unfold openDocument at done
  split at done
  · cases done
  · rename_i language known
    obtain ⟨⟨path', text⟩, middle, read, done⟩ := perform_bind_eq_ok project done
    obtain ⟨rfl, rfl, -⟩ := readSource_eq_ok read
    cases done
    exact ⟨language, languageOf_resolve project known, rfl⟩

/-- The outcome of a blind action comes with the cache as it was. -/
theorem Blind.cache_of {α : Type} {action : Action α} (blind : Blind action) {project after : Project}
    {result : Except ProjectError α} (done : project.perform action = (result, after)) :
    after.cache = project.cache := by
  have same := blind.cache_eq project
  rwa [done] at same

/-- An edit of a text that fails leaves the cache as loading left it; one that is made keeps the reading of
the edited text under the text as it was written. -/
theorem updateText_cases {project : Project} (faithful : Faithful project.cache)
    (target : SourceLocator) (prior new requestId : String) :
    ∃ cache, Faithful cache ∧
      match project.perform (updateText target prior new requestId) with
      | (.error _, after) => after.cache = cache
      | (.ok edited, after) => ∃ path kept updated,
        (project.perform (openDocument target.file)).1 = .ok (path, kept) ∧
          kept.parsed.updateText kept.text target.line target.column prior new = .ok updated ∧
          edited.content = (Text.LineBreak.ofText kept.text).apply updated ∧
          after.cache =
            keepDocument path ⟨edited.content, .ofChars kept.parsed.language updated⟩ cache := by
  obtain ⟨cache, result, after, loaded, opened, load⟩ := loadDocument_faithful faithful target.file
  refine ⟨cache, loaded, ?_⟩
  unfold updateText
  rw [opened]
  rcases result with e | ⟨path, kept⟩
  · rw [perform_bind_error project load]
  · rw [perform_bind_ok project load]
    dsimp only
    rcases spliced : kept.parsed.updateText kept.text target.line target.column prior new with e | updated
    · rw [lift, perform_bind_error _ (perform_throw _ _)]
    · rw [lift, perform_bind_ok _ (perform_pure _ _)]
      rcases checked : ({ after with cache } : Project).perform (requireSound kept.parsed.hasError
        (Markup.Document.ofChars kept.parsed.language updated).hasError target.file) with ⟨e | _, middle⟩
      · rw [perform_bind_error _ checked]
        exact (blind_requireSound _ _ _).cache_of checked
      · have same := (blind_requireSound _ _ _).cache_of checked
        rw [perform_bind_ok _ checked]
        rcases commit_cases middle target.file path kept.text updated
          (Markup.Document.ofChars kept.parsed.language updated) (keepDocument path) .textUpdate requestId
          [("originalText", .str prior), ("newText", .str new)] with
          ⟨e, last, unwritten, run⟩ | ⟨written, copied, _, edited, last, wrote, run, content, kept'⟩
        · rw [run]
          have unchanged := (blind_write _ _ _).cache_of unwritten
          exact unchanged.trans same
        · rw [run]
          refine ⟨path, kept, updated, rfl, spliced, content.trans (write_eq_ok wrote).2, ?_⟩
          rw [kept', content, same]

/-- An edit of a text leaves a faithful cache unless it mixes up texts. -/
theorem updateText_faithful_iff {project : Project} (faithful : Faithful project.cache)
    (target : SourceLocator) (prior new requestId : String) :
    Faithful (project.perform (updateText target prior new requestId)).2.cache ↔
      ¬MixesText project target prior new requestId := by
  obtain ⟨cache, loaded, cases⟩ := updateText_cases faithful target prior new requestId
  unfold MixesText
  rcases run : project.perform (updateText target prior new requestId) with ⟨e | edited, after⟩
  · rw [run] at cases
    rw [show after.cache = cache from cases]
    refine iff_of_true loaded ?_
    rintro ⟨_, _, _, _, -, -, other, -⟩
    cases other
  · rw [run] at cases
    obtain ⟨path, kept, updated, opened, spliced, content, last⟩ := cases
    rcases whole : project.perform (openDocument target.file) with ⟨result, there⟩
    rw [whole] at opened
    obtain rfl : result = .ok (path, kept) := opened
    obtain ⟨language, known, read⟩ := openDocument_eq_ok whole
    rw [last, faithful_keepDocument_iff loaded]
    constructor
    · rintro ⟨language', -, same⟩ ⟨path', kept', updated', edited', opened', spliced', done, differ⟩
      cases opened'
      cases done
      rw [spliced] at spliced'
      cases spliced'
      have source : updated = edited.content := congrArg Markup.Document.source same
      exact differ (content.symm.trans source.symm)
    · intro unmixed
      have same : edited.content = updated := Classical.byContradiction fun differ =>
        unmixed ⟨path, kept, updated, edited, rfl, spliced, rfl, fun same => differ (content.trans same)⟩
      refine ⟨language, known, ?_⟩
      rw [same, read]
      rfl

/-! ### Edits of styles -/

/-- Whether an edit was refused, for a reason that an answer can carry. -/
def IsRefused (e : ProjectError) : Prop := ∃ reason, e = .refused reason

/-- What a style edit does with the changed sheet, once its file is loaded: it keeps the sheet under the old
text, and if the edit is made under the text as it was written. -/
theorem attempt_cases (project : Project) (file : String) (path : Files.Path) (kept : Cached Sheet)
    (outcome : Sheet.Outcome (Option Style.Value)) (kind : TransformKind) (requestId selector : String) :
    match project.perform (do
      modifyCache (keepSheet path ⟨kept.text, outcome.sheet⟩)
      let previous ← ofOutcome outcome
      requireSound kept.parsed.hasError outcome.sheet.hasError file
      let edited ← commit file path kept.text outcome.sheet.source outcome.sheet (keepSheet path) kind
        requestId [("selector", .str selector)]
      return { edited with previous } : Action Edited) with
    | (.error _, after) => after.cache = keepSheet path ⟨kept.text, outcome.sheet⟩ project.cache
    | (.ok edited, after) =>
      edited.content = (Text.LineBreak.ofText kept.text).apply outcome.sheet.source ∧
        after.cache = keepSheet path ⟨edited.content, outcome.sheet⟩ project.cache := by
  rw [perform_bind_ok _ (perform_modifyCache _ _)]
  generalize started :
    ({ project with cache := keepSheet path ⟨kept.text, outcome.sheet⟩ project.cache } : Project) = first
  have cache : first.cache = keepSheet path ⟨kept.text, outcome.sheet⟩ project.cache := by rw [← started]
  rcases tried : first.perform (ofOutcome outcome) with ⟨e | previous, second⟩
  · rw [perform_bind_error _ tried]
    exact ((blind_ofOutcome outcome).cache_of tried).trans cache
  · have same := (blind_ofOutcome outcome).cache_of tried
    rw [perform_bind_ok _ tried]
    rcases checked : second.perform (requireSound kept.parsed.hasError outcome.sheet.hasError file) with
      ⟨e | _, third⟩
    · rw [perform_bind_error _ checked]
      exact ((blind_requireSound _ _ _).cache_of checked).trans (same.trans cache)
    · have same' := (blind_requireSound _ _ _).cache_of checked
      rw [perform_bind_ok _ checked]
      rcases commit_cases third file path kept.text outcome.sheet.source outcome.sheet (keepSheet path)
        kind requestId [("selector", .str selector)] with
        ⟨e, last, unwritten, run⟩ | ⟨written, copied, _, edited, last, wrote, run, content, kept'⟩
      · rw [perform_bind_error _ run]
        exact ((blind_write _ _ _).cache_of unwritten).trans (same'.trans (same.trans cache))
      · rw [perform_bind_ok _ run]
        refine ⟨content.trans (write_eq_ok wrote).2, ?_⟩
        show last.cache = _
        rw [kept', ← content, same', same, cache]
        simp only [keepSheet, Table.put_put]

theorem faithful_drop_keepSheet {cache : Cache} (faithful : Faithful cache) (path : Files.Path)
    (kept : Cached Sheet) : Faithful ((keepSheet path kept cache).drop path) := by
  have dropped := faithful_drop faithful path
  refine ⟨dropped.documents, fun other found there => ?_⟩
  simp only [Cache.drop, keepSheet, Table.get?_drop, Table.get?_put] at there
  split at there
  · cases there
  · exact faithful.sheets other found there

/-- A style edit either stops with a faithful cache, before it has a sheet or because it is refused; or it
breaks off and the changed sheet stays under the old text; or it is made and the changed sheet is kept
under the text as it was written. -/
theorem editSheet_cases {project : Project} (faithful : Faithful project.cache) (target : SourceLocator)
    (kind : TransformKind) (requestId : String)
    (edit : Sheet → String → Sheet.Outcome (Option Style.Value)) :
    (∃ e after, project.perform (editSheet target kind requestId edit) = (.error e, after) ∧
      Faithful after.cache ∧
      (IsRefused e ∨ target.selectors.getLast? = none ∨
        ∃ e', (project.perform (openSheet target.styleFile)).1 = .error e')) ∨
    ∃ cache selector path kept, Faithful cache ∧ target.selectors.getLast? = some selector ∧
      (project.perform (openSheet target.styleFile)).1 = .ok (path, kept) ∧
      match project.perform (editSheet target kind requestId edit) with
      | (.error e, after) => ¬IsRefused e ∧
          after.cache = keepSheet path ⟨kept.text, (edit kept.parsed selector).sheet⟩ cache
      | (.ok edited, after) =>
          edited.content = (Text.LineBreak.ofText kept.text).apply (edit kept.parsed selector).sheet.source ∧
          after.cache = keepSheet path ⟨edited.content, (edit kept.parsed selector).sheet⟩ cache := by
  unfold editSheet targetSelector
  rcases chosen : target.selectors.getLast? with _ | selector
  · left
    exact ⟨_, project, rfl, faithful, .inl ⟨_, rfl⟩⟩
  · dsimp only
    rw [perform_bind_ok _ (perform_pure _ _)]
    obtain ⟨cache, result, after, loaded, opened, load⟩ := loadSheet_faithful faithful target.styleFile
    rw [opened]
    rcases result with e | ⟨path, kept⟩
    · left
      exact ⟨e, _, perform_bind_error project load, loaded, .inr (.inr ⟨e, rfl⟩)⟩
    · rw [perform_bind_ok project load]
      dsimp only
      have tried := attempt_cases { after with cache } target.styleFile path kept (edit kept.parsed selector)
        kind requestId selector
      rw [perform_try]
      split at tried
      · rename_i e last outcome
        simp only [outcome]
        cases e with
        | refused reason =>
          -- what was kept of the file is forgotten, the changed sheet included
          left
          refine ⟨_, { last with cache := last.cache.drop path }, rfl, ?_, .inl ⟨reason, rfl⟩⟩
          dsimp only
          rw [tried]
          exact faithful_drop_keepSheet loaded path _
        | _ =>
          right
          exact ⟨cache, selector, path, kept, loaded, rfl, rfl, by simp [IsRefused], tried⟩
      · rename_i edited last outcome
        simp only [outcome]
        exact .inr ⟨cache, selector, path, kept, loaded, rfl, rfl, tried⟩

/-- Whether a style edit keeps a changed sheet under a text that is not its own: one that was written with
other line breaks, or the old one because the edit broke off. -/
def MixesSheet (project : Project) (target : SourceLocator) (kind : TransformKind) (requestId : String)
    (edit : Sheet → String → Sheet.Outcome (Option Style.Value)) : Prop :=
  ∃ selector path kept, target.selectors.getLast? = some selector ∧
    (project.perform (openSheet target.styleFile)).1 = .ok (path, kept) ∧
    match (project.perform (editSheet target kind requestId edit)).1 with
    | .ok _ => ChangesBreaks kept.text (edit kept.parsed selector).sheet.source
    | .error e => ¬IsRefused e ∧ kept.text ≠ (edit kept.parsed selector).sheet.source

/-- A style edit leaves a faithful cache unless it mixes up sheets. -/
theorem editSheet_faithful_iff {project : Project} (faithful : Faithful project.cache)
    (target : SourceLocator) (kind : TransformKind) (requestId : String)
    (edit : Sheet → String → Sheet.Outcome (Option Style.Value)) :
    Faithful (project.perform (editSheet target kind requestId edit)).2.cache ↔
      ¬MixesSheet project target kind requestId edit := by
  unfold MixesSheet
  rcases editSheet_cases faithful target kind requestId edit with
    ⟨e, after, run, kept, reason⟩ | ⟨cache, selector, path, kept, loaded, chosen, opened, last⟩
  · rw [run]
    refine iff_of_true kept ?_
    rintro ⟨selector, path, sheet, chosen, opened, broken, -⟩
    rcases reason with refused | unchosen | ⟨e', unopened⟩
    · exact broken refused
    · rw [chosen] at unchosen
      cases unchosen
    · rw [opened] at unopened
      cases unopened
  · -- in both other cases one sheet is kept, and it is faithful just if its text is the kept one
    have unique : ∀ selector' path' kept', target.selectors.getLast? = some selector' →
        (project.perform (openSheet target.styleFile)).1 = .ok (path', kept') →
        selector' = selector ∧ kept' = kept := by
      intro selector' path' kept' chosen' opened'
      rw [chosen] at chosen'
      rw [opened] at opened'
      cases chosen'
      cases opened'
      exact ⟨rfl, rfl⟩
    rcases run : project.perform (editSheet target kind requestId edit) with ⟨e | edited, after⟩
    · rw [run] at last
      obtain ⟨broken, same⟩ := last
      rw [same, faithful_keepSheet_iff loaded, sheet_eq_ofChars_iff]
      constructor
      · rintro source ⟨selector', path', kept', chosen', opened', -, differ⟩
        obtain ⟨rfl, rfl⟩ := unique _ _ _ chosen' opened'
        exact differ source.symm
      · intro unmixed
        exact Classical.byContradiction fun differ =>
          unmixed ⟨selector, path, kept, chosen, opened, broken, fun same => differ same.symm⟩
    · rw [run] at last
      obtain ⟨content, same⟩ := last
      rw [same, faithful_keepSheet_iff loaded, sheet_eq_ofChars_iff, content]
      constructor
      · rintro source ⟨selector', path', kept', chosen', opened', differ⟩
        obtain ⟨rfl, rfl⟩ := unique _ _ _ chosen' opened'
        exact differ source.symm
      · intro unmixed
        exact Classical.byContradiction fun differ =>
          unmixed ⟨selector, path, kept, chosen, opened, fun same => differ same.symm⟩

end Project

end Retouch
