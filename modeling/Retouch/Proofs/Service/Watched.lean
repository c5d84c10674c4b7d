import Retouch.Proofs.Files.PathText

/-!
# Sources that are watched

Which files are sources is said twice: the project reads them by their suffix, in small and in capital letters, and the
watcher looks at them by patterns, which take letters as they are written. So the two agree just on the files whose
suffix is written in small letters: what was read of the others stays when they change.

## Main statements

* `touchAll_project`: what is forgotten are the places of the paths that are heeded.
* `heeds_iff`: a source is heeded just if its suffix is written in small letters.
* `observe_forgets_iff`: what a change leaves in the cache.
-/
namespace Retouch

/-- The suffix of a file with its letters as they are written. -/
def Files.writtenSuffix (file : String) : List Char := suffixOfName (lastName file.toList)

/-- Projects read files with this suffix, as markup or as style sheets. -/
inductive IsSource (file : String) : Prop
  | markup (language : Markup.Language) (known : Markup.Language.ofPath? file = some language)
  | sheet (same : Files.suffix file = Files.styleSuffix)

/-- The suffixes of sources. -/
def sourceSuffixes : List String := [".tsx", ".ts", ".jsx", ".js", ".css"]

theorem IsSource.suffix {file : String} (source : IsSource file) : Files.suffix file ∈ sourceSuffixes := by
  cases source with
  | markup language known =>
    obtain ⟨entry, found, -⟩ := Option.map_eq_some_iff.mp known
    have same : entry.1 = Files.suffix file := by simpa using List.find?_some found
    have listed : ∀ entry ∈ Markup.Language.suffixes, entry.1 ∈ sourceSuffixes := by decide
    exact same ▸ listed entry (List.mem_of_find?_eq_some found)
  | sheet same =>
    rw [same]
    decide

namespace Cache

theorem has_eq_false_iff {cache : Cache} {place : Files.Path} :
    cache.has place = false ↔ Table.get? cache.documents place = none ∧ Table.get? cache.sheets place = none := by
  simp [has, Table.has]

/-- What is kept after some places were forgotten. -/
theorem get?_foldl_drop (places : List Files.Path) (cache : Cache) (place : Files.Path) :
    Table.get? (places.foldl drop cache).documents place =
        (if place ∈ places then none else Table.get? cache.documents place) ∧
      Table.get? (places.foldl drop cache).sheets place =
        if place ∈ places then none else Table.get? cache.sheets place := by
  induction places generalizing cache with
  | nil => simp
  | cons first rest ih =>
    obtain ⟨documents, sheets⟩ := ih (cache.drop first)
    rw [List.foldl_cons, documents, sheets]
    by_cases later : place ∈ rest
    · simp [later]
    · by_cases here : first = place
      · subst here
        simp [drop, Table.get?_drop]
      · have other : ¬place = first := fun same => here same.symm
        simp [later, here, other, drop, Table.get?_drop]

theorem has_foldl_drop_eq_false_iff {places : List Files.Path} {cache : Cache} {place : Files.Path} :
    (places.foldl drop cache).has place = false ↔ place ∈ places ∨ cache.has place = false := by
  obtain ⟨documents, sheets⟩ := get?_foldl_drop places cache place
  rw [has_eq_false_iff, has_eq_false_iff, documents, sheets]
  by_cases member : place ∈ places <;> simp [member]

end Cache

namespace Service

/-- A path with slashes for backslashes, as patterns are compared with it. -/
def slashed (path : String) : List Char := path.toList.map fun c => if c = '\\' then '/' else c

namespace WatchRules

/-- One of the patterns says to pass over the path. -/
def passes (rules : WatchRules) (path : String) : Bool := namedBy rules.passed (slashed path)

/-- Changes at a place are taken notice of. -/
def heeds (rules : WatchRules) (root place : Files.Path) : Bool :=
  root.contains place && !rules.ignores (root.under place)

theorem ignores_eq (rules : WatchRules) (path : String) :
    rules.ignores path = (rules.passes path || !namedBy rules.watched (Files.lastName (slashed path))) := rfl

end WatchRules

/-! ### What is forgotten -/

/-- The project forgets the places of those paths that are heeded, and nothing else changes. -/
theorem Watcher.touchAll_project (watcher : Watcher) (project : Project) (paths : List Files.Path) :
    (watcher.touchAll project paths).2 =
      { project with
        cache := ((paths.map project.root.place).filter (watcher.rules.heeds project.root)).foldl Cache.drop
          project.cache } := by
  induction paths generalizing watcher project with
  | nil => rfl
  | cons path rest ih =>
    rw [touchAll]
    dsimp only
    rw [ih]
    unfold touch
    dsimp only
    rw [List.map_cons, List.filter_cons]
    by_cases heeded : watcher.rules.heeds project.root (project.root.place path) = true
    · have noticed := heeded
      unfold WatchRules.heeds Files.Path.place at noticed
      rw [if_pos noticed, if_pos heeded]
      rfl
    · have unnoticed := heeded
      unfold WatchRules.heeds Files.Path.place at unnoticed
      rw [if_neg unnoticed, if_neg heeded]

/-! ### Which sources are heeded -/

/-- The patterns that are usual name the texts that end with the suffix of a source. -/
theorem namedBy_watched_iff (text : List Char) :
    namedBy ({} : WatchRules).watched text = true ↔ ∃ suffix ∈ sourceSuffixes, suffix.toList <:+ text := by
  have patterns : ({} : WatchRules).watched = sourceSuffixes.map ("*" ++ ·) := by decide +kernel
  have plain : ∀ suffix ∈ sourceSuffixes, ∀ c ∈ suffix.toList, Files.IsPlain c := by
    have each : (sourceSuffixes.all fun suffix => suffix.toList.all fun c => c ∉ ['*', '?', '[']) = true := by decide
    intro suffix listed c member
    have marks := List.all_eq_true.mp (List.all_eq_true.mp each suffix listed) c member
    simpa [Files.IsPlain] using marks
  rw [patterns, namedBy, List.any_map, List.any_eq_true]
  refine exists_congr fun suffix => and_congr_right fun listed => ?_
  exact Files.names_star_iff (String.toList_append ..) (plain suffix listed)

/-- What ends with a dot and more without dots ends with one of the suffixes just if this is the one. -/
theorem ends_iff {part ext : List Char} (noDot : '.' ∉ ext) :
    (∃ suffix ∈ sourceSuffixes, suffix.toList <:+ part ++ '.' :: ext) ↔
      String.ofList ('.' :: ext) ∈ sourceSuffixes := by
  have dots : ∀ suffix ∈ sourceSuffixes, ∃ more, suffix.toList = '.' :: more ∧ '.' ∉ more := by
    intro suffix listed
    have each : ∀ suffix ∈ sourceSuffixes, suffix.toList.head? = some '.' ∧ '.' ∉ suffix.toList.tail := by decide
    obtain ⟨first, rest⟩ := each suffix listed
    obtain ⟨more, cut⟩ := List.head?_eq_some_iff.mp first
    rw [cut] at rest
    exact ⟨more, cut, rest⟩
  -- The last dot cuts both of them off.
  have one {more : List Char} (noDot' : '.' ∉ more) (inside : '.' :: more <:+ part ++ '.' :: ext) : more = ext := by
    rcases List.suffix_or_suffix_of_suffix inside (List.suffix_append part _) with shorter | longer
    · rcases List.suffix_cons_iff.mp shorter with same | within
      · exact (List.cons.inj same).2
      · exact absurd (within.subset List.mem_cons_self) noDot
    · rcases List.suffix_cons_iff.mp longer with same | within
      · exact (List.cons.inj same).2.symm
      · exact absurd (within.subset List.mem_cons_self) noDot'
  constructor
  · rintro ⟨suffix, listed, inside⟩
    obtain ⟨more, cut, noDot'⟩ := dots suffix listed
    rw [cut] at inside
    rw [← one noDot' inside, ← cut, String.ofList_toList]
    exact listed
  · intro listed
    exact ⟨_, listed, by rw [String.toList_ofList]; exact List.suffix_append part _⟩

/-- A suffix whose small letters are those of a source is one just if its letters are small. -/
theorem mem_sourceSuffixes_iff {suffix : List Char} (source : String.ofList (Text.lowerChars suffix) ∈ sourceSuffixes) :
    String.ofList suffix ∈ sourceSuffixes ↔ Text.lowerChars suffix = suffix := by
  constructor
  · intro listed
    have small : ∀ suffix ∈ sourceSuffixes, Text.lowerChars suffix.toList = suffix.toList := by decide
    have same := small _ listed
    rwa [String.toList_ofList] at same
  · intro same
    rwa [same] at source

/-- A source below the root of a project, where no pattern says to pass over its changes. -/
structure Watchable (rules : WatchRules) (root : Files.Path) (file : String) : Prop where
  source : IsSource file
  inside : root.contains (root.place (.ofText file)) = true
  below : (root.place (.ofText file)).names ≠ root.names
  kept : rules.passes (root.under (root.place (.ofText file))) = false

/-- Parts with something between them end with the last part. -/
theorem intercalate_concat (between : List Char) (parts : List (List Char)) (last : List Char) :
    ∃ front, between.intercalate (parts ++ [last]) = front ++ last := by
  induction parts with
  | nil => exact ⟨[], by simp⟩
  | cons part parts ih =>
    obtain ⟨front, ends⟩ := ih
    rw [List.cons_append, List.intercalate_cons_of_ne_nil (by simp), ends]
    exact ⟨part ++ between ++ front, by simp⟩

/-- The path from the root to a file below it ends with the last name of the file. -/
theorem under_ends {root : Files.Path} {file : String}
    (some_ : Files.suffixOfName (Files.lastName file.toList) ≠ [])
    (inside : root.contains (root.place (.ofText file)) = true)
    (below : (root.place (.ofText file)).names ≠ root.names) :
    ∃ front, (root.under (root.place (.ofText file))).toList = front ++ Files.lastName file.toList := by
  obtain ⟨outer, names⟩ := Files.Path.names_place some_ root
  have long : root.names.length ≤ outer.length := by
    obtain ⟨rest, split⟩ := List.isPrefixOf_iff_prefix.mp inside
    have filled : rest ≠ [] := by
      rintro rfl
      rw [List.append_nil] at split
      exact below split.symm
    have lengths := congrArg List.length split
    rw [names, List.length_append, List.length_append, List.length_singleton] at lengths
    have := List.length_pos_iff.mpr filled
    omega
  have text : root.under (root.place (.ofText file)) =
      "/".intercalate (outer.drop root.names.length ++ [String.ofList (Files.lastName file.toList)]) := by
    unfold Files.Path.under Files.Path.toText
    simp only [names, List.drop_append_of_le_length long]
    simp
  rw [text, String.toList_intercalate, List.map_append, List.map_singleton]
  simp only [String.toList_ofList]
  exact intercalate_concat _ _ _

/-- A source is heeded just if its suffix is written in small letters. -/
theorem heeds_iff {rules : WatchRules} (usual : rules.watched = ({} : WatchRules).watched) {root : Files.Path}
    {file : String} (watchable : Watchable rules root file) :
    rules.heeds root (root.place (.ofText file)) = true ↔
      Text.lowerChars (Files.writtenSuffix file) = Files.writtenSuffix file := by
  have small : String.ofList (Text.lowerChars (Files.writtenSuffix file)) ∈ sourceSuffixes := watchable.source.suffix
  have some_ : Files.writtenSuffix file ≠ [] := by
    intro none
    rw [none] at small
    exact absurd small (by decide)
  -- Neither kind of slash is in the suffix, for it would be in its small form too.
  have noSlash {c : Char} (ascii : c.toNat < 128) (far : ∀ suffix ∈ sourceSuffixes, c.toLower ∉ suffix.toList) :
      c ∉ Files.writtenSuffix file := by
    intro member
    have lowered := Text.toLower_mem_lowerChars ascii member
    refine far _ small ?_
    rwa [String.toList_ofList]
  have forward := noSlash (c := '/') (by decide) (by decide)
  have backward := noSlash (c := '\\') (by decide) (by decide)
  obtain ⟨stem, ext, name, suffix, noDot, filled⟩ := Files.suffixOfName_cut some_
  have suffix : Files.writtenSuffix file = '.' :: ext := suffix
  obtain ⟨front, ends⟩ := under_ends some_ watchable.inside watchable.below
  rw [suffix] at forward backward small ⊢
  have text : slashed (root.under (root.place (.ofText file))) =
      (front ++ stem).map (fun c => if c = '\\' then '/' else c) ++ '.' :: ext := by
    have same : ('.' :: ext).map (fun c => if c = '\\' then '/' else c) = '.' :: ext := by
      refine (List.map_congr_left fun c member => if_neg ?_).trans (List.map_id' _)
      rintro rfl
      exact backward member
    rw [slashed, ends, name, ← List.append_assoc, List.map_append, same]
  have long : 2 ≤ ('.' :: ext).length := by
    have := List.length_pos_iff.mpr filled
    rw [List.length_cons]
    omega
  obtain ⟨part, last⟩ := Files.lastName_append forward long
    ((front ++ stem).map fun c => if c = '\\' then '/' else c)
  rw [WatchRules.heeds, WatchRules.ignores_eq, watchable.inside, watchable.kept, text, last, usual, Bool.true_and,
    Bool.false_or, Bool.not_not, namedBy_watched_iff, ends_iff noDot, mem_sourceSuffixes_iff small]

/-! ### What a change leaves behind -/

/-- Nothing is kept of a source that changes, just if nothing was kept before or its suffix is written in small letters;
and of a file that a change does not name everything is kept. -/
theorem observe_forgets_iff (watcher : Watcher) (usual : watcher.rules.watched = ({} : WatchRules).watched)
    (project : Project) (event : FileEvent) :
    (∀ file, Watchable watcher.rules project.root file → event.ofFolder = false →
      project.root.place (.ofText file) ∈ event.paths.map project.root.place →
      ((watcher.observe project event).2.cache.has (project.root.place (.ofText file)) = false ↔
        Text.lowerChars (Files.writtenSuffix file) = Files.writtenSuffix file ∨
          project.cache.has (project.root.place (.ofText file)) = false)) ∧
    ∀ place ∉ event.paths.map project.root.place,
      Table.get? (watcher.observe project event).2.cache.documents place = Table.get? project.cache.documents place ∧
        Table.get? (watcher.observe project event).2.cache.sheets place = Table.get? project.cache.sheets place := by
  have after : (watcher.observe project event).2 =
      if event.ofFolder then project else (watcher.touchAll project event.paths).2 := by
    unfold Watcher.observe
    split <;> rfl
  rw [after]
  constructor
  · intro file watchable ofFile named
    rw [ofFile, if_neg (by simp), watcher.touchAll_project]
    dsimp only
    rw [Cache.has_foldl_drop_eq_false_iff, List.mem_filter, and_iff_right named, heeds_iff usual watchable]
  · intro place unnamed
    split
    · exact ⟨rfl, rfl⟩
    · rw [watcher.touchAll_project]
      obtain ⟨documents, sheets⟩ := Cache.get?_foldl_drop
        ((event.paths.map project.root.place).filter (watcher.rules.heeds project.root)) project.cache place
      have passed : place ∉ (event.paths.map project.root.place).filter (watcher.rules.heeds project.root) :=
        fun member => unnamed (List.mem_filter.mp member).1
      rw [documents, sheets, if_neg passed, if_neg passed]
      exact ⟨rfl, rfl⟩

/-- A page with a markup file whose suffix has capital letters. -/
def capitalProject : Project where
  root := .ofText "/page"
  disk :=
    { nodes := [(["page"], .folder), (["page", "App.TSX"], .file ⟨Text.Utf8.encode "<p>x</p>;".toList, 0⟩)]
      writes := 1 }

/-- The page after its file was read. -/
def readProject : Project := (capitalProject.perform (Project.loadDocument "App.TSX")).2

theorem watchable_app : Watchable {} readProject.root "App.TSX" where
  source := .markup .tsx (by decide)
  inside := by decide +kernel
  below := by decide +kernel
  kept := by decide +kernel

/-- A file is moved to the place of the file that was read. -/
def moved : FileEvent := ⟨false, [.ofText "new.tmp", .ofText "./App.TSX"]⟩

theorem observe_forgets_iff_app :
    ({} : Watcher).rules.watched = ({} : WatchRules).watched ∧ Watchable {} readProject.root "App.TSX" ∧
      moved.ofFolder = false ∧
      readProject.root.place (.ofText "App.TSX") ∈ moved.paths.map readProject.root.place ∧
      ((({} : Watcher).observe readProject moved).2.cache.has (readProject.root.place (.ofText "App.TSX")) = false ↔
        Text.lowerChars (Files.writtenSuffix "App.TSX") = Files.writtenSuffix "App.TSX" ∨
          readProject.cache.has (readProject.root.place (.ofText "App.TSX")) = false) := by
  have named : readProject.root.place (.ofText "App.TSX") ∈ moved.paths.map readProject.root.place := by decide +kernel
  exact ⟨rfl, watchable_app, rfl, named,
    (observe_forgets_iff {} rfl readProject moved).1 "App.TSX" watchable_app rfl named⟩

/-- What was read of the file stays, although a change names it and no pattern says to pass over it. -/
theorem capital_suffix_kept :
    Watchable {} readProject.root "App.TSX" ∧
      (({} : Watcher).observe readProject ⟨false, [.ofText "App.TSX"]⟩).2.cache.has
        (readProject.root.place (.ofText "App.TSX")) = true :=
  ⟨watchable_app, by decide +kernel⟩

end Service

end Retouch
