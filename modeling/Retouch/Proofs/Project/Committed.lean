import Retouch.Proofs.Project.Failure
import Retouch.Proofs.Project.Rewrite

/-!
# What an edit leaves

Whatever the cache holds, an edit that is made ends with one write of its file, over the text that the file
held, and with a record of that text. A record says which file had which text, and lies in a file of its own,
which has another suffix than those that can be edited.

## Main statements

* `edit_eq_ok`: the write and the record that an edit ends with.
* `Ends.written` and `Ends.noted`: what the edited file and the file of the record hold afterwards.
-/
namespace Retouch

/-- The end of a name from its last dot on is its suffix. -/
theorem Files.suffixOfName_append {front back : List Char} (named : front ≠ []) (more : back ≠ [])
    (last : '.' ∉ back) : suffixOfName (front ++ '.' :: back) = '.' :: back := by
  have plain : ∀ c ∈ back.reverse, decide (c ≠ '.') = true := by
    intro c member
    have : c ≠ '.' := fun same => last (same ▸ List.mem_reverse.mp member)
    simpa using this
  have parts : (front ++ '.' :: back).reverse.span (· ≠ '.') = (back.reverse, '.' :: front.reverse) := by
    rw [List.span_eq_takeWhile_dropWhile]
    simp only [List.reverse_append, List.reverse_cons, List.append_assoc, List.singleton_append]
    rw [List.takeWhile_append_of_pos plain, List.dropWhile_append_of_pos plain]
    simp
  unfold suffixOfName
  rw [parts]
  simp [named, more]

namespace Project

variable {α : Type} {project before after : Project} {path : Files.Path} {file : String} {request : Request}
  {text content : List Char} {edited : Edited} {r : Record} {transaction : Option String}

/-! ### Records -/

/-- The file of a record. -/
def recordFile (project : Project) (id : String) : Files.Path :=
  (historyFolder project.root).child (id ++ recordSuffix)

theorem record_eq_ok {id : String} (done : project.perform (record r) = (.ok (some id), after)) :
    ∃ disk, project.disk.makeFolders (historyFolder project.root) = .ok disk ∧
      id = transactionId (project.recorded + 1) ∧
      after = { project with
        disk := disk.write (recordFile project id).names
          (Text.Utf8.encode ((r.toJson project.now).writeIndented 0).toList)
        recorded := project.recorded + 1 } := by
  unfold record at done
  rw [perform_bind_ok _ (perform_get _)] at done
  dsimp only at done
  split at done
  · cases done
  · rename_i disk made
    rw [perform_bind_ok _ (perform_set _ _), perform_pure] at done
    cases done
    exact ⟨disk, made, rfl, rfl⟩

/-- The texts that are told of an edit: each under a name of its own. -/
structure Textual (members : Json.Members) : Prop where
  names : (members.map Prod.fst).Nodup
  texts : ∀ member ∈ members, ∃ s, member.2 = .str s

/-- What an edit does behind its write: it records the text before, if transforms are recorded. -/
def Noted (r : Record) (project : Project) (transaction : Option String) (after : Project) : Prop :=
  project.settings.history = false ∧ transaction = none ∧ after = project ∨
    project.perform (record r) = (.ok transaction, after)

/-- The record tells what was asked for. -/
structure Record.Of (r : Record) (kind : TransformKind) (requestId : String) : Prop where
  kind : r.kind = kind.name
  requestId : r.requestId = requestId

/-- The write and the record that an edit of a file ends with. -/
structure Ends (project : Project) (path : Files.Path) (before content : List Char) (r : Record)
    (edited : Edited) (after : Project) : Prop where
  patches : r.patches = [Patch.members ⟨path, before⟩]
  metadata : Textual r.metadata
  wrote : ∃ copied middle last cache,
    project.perform (write path content (some before)) = (.ok (edited.content, copied), middle) ∧
      Noted r middle edited.transaction last ∧ after = { last with cache }

/-! ### The end of an edit -/

theorem commit_eq_ok {parsed : α} {keep : Cached α → Cache → Cache} {kind : TransformKind} {requestId : String}
    {metadata : Json.Members} {known : List Char} (textual : Textual metadata)
    (done : project.perform (commit file path known content parsed keep kind requestId metadata) =
      (.ok edited, after)) : ∃ r, r.Of kind requestId ∧ Ends project path known content r edited after := by
  unfold commit at done
  obtain ⟨⟨written, copied⟩, middle, wrote, done⟩ := perform_bind_eq_ok project done
  dsimp only at done
  rw [perform_bind_ok _ (perform_modifyCache _ _), perform_bind_ok _ (perform_get _)] at done
  dsimp only at done
  split at done
  · obtain ⟨transaction, last, recorded, done⟩ := perform_bind_eq_ok _ done
    cases done
    -- Recording has no part in the cache, which has changed since the write.
    have same := blind_record { kind := kind.name, requestId, patches := [Patch.members ⟨path, known⟩], metadata }
      { middle with cache := keep ⟨written, parsed⟩ middle.cache } middle.cache
    rw [recorded] at same
    exact ⟨_, ⟨rfl, rfl⟩, rfl, textual, copied, middle, _, after.cache, wrote, .inr same, rfl⟩
  · rename_i silent
    rw [perform_bind_ok _ (perform_pure _ _), perform_pure] at done
    cases done
    exact ⟨⟨kind.name, requestId, [Patch.members ⟨path, known⟩], metadata⟩, ⟨rfl, rfl⟩, rfl, textual, copied, middle,
      middle, _, wrote, .inl ⟨by simpa using silent, rfl, rfl⟩, rfl⟩

/-- What an edit ends with does not depend on the cache. -/
theorem Ends.of_cache {cache : Cache} {known : List Char}
    (ends : Ends { project with cache } path known content r edited after) :
    Ends project path known content r edited after := by
  obtain ⟨patches, metadata, copied, middle, last, cache', wrote, noted, rfl⟩ := ends
  refine ⟨patches, metadata, copied, _, { last with cache := project.cache }, cache', write_of_cache wrote, ?_, rfl⟩
  rcases noted with ⟨unasked, silent, rfl⟩ | done
  · exact .inl ⟨unasked, silent, rfl⟩
  · have same := blind_record r middle project.cache
    rw [done] at same
    exact .inr same

/-- A file that an edit was made of does not have the suffix of a record. -/
theorem suffix_ne_record {suffix : String} (project : Project) (known : Files.suffix file = suffix)
    (marked : suffix ≠ "") (other : suffix ≠ recordSuffix) : (project.resolve file).suffix ≠ recordSuffix := by
  unfold resolve
  rw [Files.Path.suffix_normal _ _ (known ▸ marked), known]
  exact other

/-- What is kept when an edit is made. -/
theorem cache_of_commit {parsed : α} {keep : Cached α → Cache → Cache} {kind : TransformKind} {requestId : String}
    {metadata : Json.Members} {known : List Char}
    (done : project.perform (commit file path known content parsed keep kind requestId metadata) =
      (.ok edited, after)) : after.cache = keep ⟨edited.content, parsed⟩ project.cache := by
  rcases commit_cases project file path known content parsed keep kind requestId metadata with
    ⟨_, _, -, failed⟩ | ⟨_, _, _, _, _, -, run, rfl, kept⟩
  · rw [failed] at done
    cases done
  · rw [run] at done
    cases done
    exact kept

/-- What an edit of a text that was made came to. -/
theorem updateText_eq_ok {target : SourceLocator} {prior new requestId : String}
    (done : project.perform (updateText target prior new requestId) = (.ok edited, after)) :
    (project.resolve target.file).suffix ≠ recordSuffix ∧ ∃ kept loaded updated r,
      project.perform (loadDocument target.file) = (.ok (project.resolve target.file, kept), loaded) ∧
      kept.parsed.updateText kept.text target.line target.column prior new = .ok updated ∧
      ((Markup.Document.ofChars kept.parsed.language updated).hasError = true → kept.parsed.hasError = true) ∧
      r.Of .textUpdate requestId ∧ Ends project (project.resolve target.file) kept.text updated r edited after ∧
      after.cache = keepDocument (project.resolve target.file)
        ⟨edited.content, .ofChars kept.parsed.language updated⟩ loaded.cache := by
  unfold updateText at done
  obtain ⟨⟨path, kept⟩, loaded, load, done⟩ := perform_bind_eq_ok project done
  obtain ⟨language, known, rfl, -, cached⟩ := loadDocument_eq_ok load
  obtain ⟨cache, rfl⟩ : ∃ cache, loaded = { project with cache } := by
    rcases cached with ⟨-, rfl⟩ | ⟨-, -, rfl⟩ <;> exact ⟨_, rfl⟩
  obtain ⟨updated, _, spliced, done⟩ := perform_bind_eq_ok _ done
  obtain ⟨made, rfl⟩ := perform_lift_eq_ok _ spliced
  obtain ⟨_, _, checked, done⟩ := perform_bind_eq_ok _ done
  obtain ⟨sound, rfl⟩ := requireSound_eq_ok checked
  have kept' := cache_of_commit done
  obtain ⟨r, asked, ends⟩ := commit_eq_ok ⟨by simp, by simp⟩ done
  refine ⟨?_, kept, _, updated, r, load, made, sound, asked, Ends.of_cache ends, kept'⟩
  -- Each of the suffixes of markup files is another one.
  obtain ⟨entry, found, -⟩ := Option.map_eq_some_iff.mp known
  have suffixes : ∀ entry ∈ Markup.Language.suffixes, entry.1 ≠ "" ∧ entry.1 ≠ recordSuffix := by decide
  have plain := suffixes entry (List.mem_of_find?_eq_some found)
  have same : entry.1 = Files.suffix target.file := by simpa using List.find?_some found
  exact suffix_ne_record project same.symm plain.1 plain.2

/-- What an edit of a sheet that was made came to, whatever was kept. -/
theorem editSheet_ends {target : SourceLocator} {kind : TransformKind} {requestId : String} {edit : SheetEdit}
    (done : project.perform (editSheet target kind requestId edit) = (.ok edited, after)) :
    (project.resolve target.styleFile).suffix = Files.styleSuffix ∧ ∃ selector kept loaded r,
      target.selectors.getLast? = some selector ∧
      project.perform (loadSheet target.styleFile) = (.ok (project.resolve target.styleFile, kept), loaded) ∧
      (edit kept.parsed selector).result = .ok edited.previous ∧
      ((edit kept.parsed selector).sheet.hasError = true → kept.parsed.hasError = true) ∧
      r.Of kind requestId ∧
      Ends project (project.resolve target.styleFile) kept.text (edit kept.parsed selector).sheet.source r edited
        after ∧
      after.cache = keepSheet (project.resolve target.styleFile)
        ⟨edited.content, (edit kept.parsed selector).sheet⟩ loaded.cache := by
  unfold editSheet at done
  obtain ⟨selector, started, chosen, done⟩ := perform_bind_eq_ok project done
  obtain ⟨found, rfl⟩ : target.selectors.getLast? = some selector ∧ project = started := by
    unfold targetSelector at chosen
    split at chosen <;> cases chosen
    exact ⟨by assumption, rfl⟩
  obtain ⟨⟨path, kept⟩, loaded, load, done⟩ := perform_bind_eq_ok project done
  obtain ⟨rfl, -, cached⟩ := loadSheet_eq_ok load
  obtain ⟨cache, rfl⟩ : ∃ cache, loaded = { project with cache } := by
    rcases cached with ⟨-, rfl⟩ | ⟨-, -, rfl⟩ <;> exact ⟨_, rfl⟩
  dsimp only at done
  rw [perform_try, perform_bind_ok _ (perform_modifyCache _ _)] at done
  split at done
  · rename_i tried
    obtain ⟨previous, _, first, tried⟩ := perform_bind_eq_ok _ tried
    obtain ⟨whole, rfl⟩ := ofOutcome_eq_ok first
    obtain ⟨_, _, second, tried⟩ := perform_bind_eq_ok _ tried
    obtain ⟨sound, rfl⟩ := requireSound_eq_ok second
    obtain ⟨committed, last, third, tried⟩ := perform_bind_eq_ok _ tried
    cases tried
    cases done
    have kept' := cache_of_commit third
    obtain ⟨r, asked, ends⟩ := commit_eq_ok ⟨by simp, by simp⟩ third
    have ends' : Ends project _ _ _ r committed _ := Ends.of_cache ends
    obtain ⟨patches, metadata, wrote⟩ := ends'
    refine ⟨?_, selector, kept, _, r, found, load, congrArg Sheet.Outcome.result whole, sound, asked,
      ⟨patches, metadata, wrote⟩, kept'.trans ?_⟩
    · unfold loadSheet at load
      obtain ⟨-, load⟩ := perform_guard_eq_ok project load
      obtain ⟨styled, -⟩ := perform_guard_eq_ok project load
      have named := Classical.not_not.mp styled
      unfold resolve
      rw [Files.Path.suffix_normal _ _ (named ▸ by decide), named]
    · simp [keepSheet, Table.put_put]
  · split at done
    · rw [if_pos rfl, perform_bind_ok _ (perform_modifyCache _ _)] at done
      cases done
    · cases done

/-- The write and the record that an edit ends with. -/
theorem edit_eq_ok (done : project.perform (edit request) = (.ok edited, after)) :
    (project.resolve (editedFile request)).suffix ≠ recordSuffix ∧ ∃ known updated r,
      r.Of request.change.kind request.id ∧
      Ends project (project.resolve (editedFile request)) known updated r edited after := by
  have styled {target : SourceLocator} {kind : TransformKind} {requestId : String} {edit : SheetEdit}
      (done : project.perform (editSheet target kind requestId edit) = (.ok edited, after)) :
      (project.resolve target.styleFile).suffix ≠ recordSuffix ∧ ∃ known updated r, r.Of kind requestId ∧
        Ends project (project.resolve target.styleFile) known updated r edited after := by
    obtain ⟨suffix, _, _, _, r, -, -, -, -, asked, ends, -⟩ := editSheet_ends done
    exact ⟨suffix ▸ by decide, _, _, r, asked, ends⟩
  unfold edit at done
  unfold editedFile
  cases change : request.change with
  | textUpdate prior new =>
    rw [change] at done
    obtain ⟨suffix, _, _, _, r, -, -, -, asked, ends, -⟩ := updateText_eq_ok done
    exact ⟨suffix, _, _, r, asked, ends⟩
  | _ =>
    rw [change] at done
    exact styled done

/-! ### What the files hold afterwards -/

/-- The bytes that a write puts in the place of a file. -/
theorem bytes?_of_write {known written : List Char} {copied : Bool} (clean : Files.Path.back ∉ path.names)
    (done : project.perform (write path content (some known)) = (.ok (written, copied), after)) :
    ∃ encoding bytes, Files.Encoding.ofName? project.settings.encoding = some encoding ∧
      encoding.encode written = .ok bytes ∧ after.disk.bytes? (project.disk.aim path) = some bytes := by
  obtain ⟨holds, rfl⟩ := write_eq_ok done
  obtain ⟨copied', middle, prepared, beside⟩ := prepareWrite_run (plain_of_write done) holds
  have root := beside [] (outside_root project)
  unfold write at done
  rw [perform_bind_ok _ prepared] at done
  obtain ⟨_, last, replaced, done⟩ := perform_bind_eq_ok middle done
  cases done
  obtain ⟨place, encoding, bytes, found, -, named, encoded, rfl⟩ := replaceFile_eq_ok_iff.mp replaced
  have there : place = project.disk.aim path := by
    rw [Files.Disk.locate_clean clean found, Files.Disk.aim, root.spares.home]
    rfl
  subst there
  refine ⟨encoding, bytes, root.settings ▸ named, encoded, ?_⟩
  rw [Files.Disk.bytes?_write _ _ _ _ (aim_ne_nil clean holds), if_pos rfl]

theorem bytes?_of_read {bytes : Text.Bytes} (absolute : path.absolute = true)
    (clean : Files.Path.back ∉ path.names) (read : project.disk.read path = .ok bytes) :
    project.disk.bytes? path.names = some bytes := by
  obtain ⟨place, age, found, there⟩ := Files.Disk.read_eq_ok.mp read
  obtain rfl : place = path.names := by
    rw [Files.Disk.locate_clean clean found]
    simp [Files.Disk.aim, absolute]
  unfold Files.Disk.bytes?
  rw [there]

theorem suffixOfName_record (number : Nat) :
    Files.suffixOfName (transactionId number ++ recordSuffix).toList = recordSuffix.toList := by
  have found : Files.suffixOfName ((transactionId number).toList ++ '.' :: ['j', 's', 'o', 'n']) =
      ['.', 'j', 's', 'o', 'n'] :=
    Files.suffixOfName_append (by simp [transactionId]) (by simp) (by decide)
  rw [String.toList_append]
  exact found

theorem suffix_recordFile (project : Project) (number : Nat) :
    (recordFile project (transactionId number)).suffix = recordSuffix := by
  have name : (recordFile project (transactionId number)).lastName = transactionId number ++ recordSuffix := by
    simp [recordFile, Files.Path.child, Files.Path.lastName]
  unfold Files.Path.suffix
  rw [name, suffixOfName_record]
  decide

/-- A record lies in a file of its own. -/
theorem bytes?_of_record {id : String} (done : project.perform (record r) = (.ok (some id), after))
    (place : Files.Place) : after.disk.bytes? place =
      if (recordFile project id).names = place then
        some (Text.Utf8.encode ((r.toJson project.now).writeIndented 0).toList)
      else project.disk.bytes? place := by
  obtain ⟨disk, made, -, rfl⟩ := record_eq_ok done
  dsimp only
  rw [Files.Disk.bytes?_write _ _ _ _ (by simp [recordFile, Files.Path.child]),
    Files.Disk.bytes?_makeFolders made]

theorem record_eq_ok_none (done : project.perform (record r) = (.ok none, after)) : after = project := by
  unfold record at done
  rw [perform_bind_ok _ (perform_get _)] at done
  dsimp only at done
  split at done
  · cases done
    rfl
  · rw [perform_bind_ok _ (perform_set _ _)] at done
    cases done

namespace Ends

variable {known : List Char}

/-- The text that an edit tells has the line breaks that the file had. -/
theorem reads (ends : Ends project path known content r edited after) :
    Holds project path known ∧ edited.content = (Text.LineBreak.ofText known).apply content := by
  obtain ⟨-, -, _, _, _, _, wrote, -⟩ := ends
  exact write_eq_ok wrote

/-- The edited file holds the text that the edit tells. -/
theorem written (ends : Ends project path known content r edited after) (clean : Files.Path.back ∉ path.names)
    (other : path.suffix ≠ recordSuffix) (absolute : path.absolute = true) :
    ∃ encoding bytes, Files.Encoding.ofName? project.settings.encoding = some encoding ∧
      encoding.encode edited.content = .ok bytes ∧ after.disk.bytes? path.names = some bytes := by
  obtain ⟨-, -, copied, middle, last, cache, wrote, noted, rfl⟩ := ends
  obtain ⟨encoding, bytes, named, encoded, held⟩ := bytes?_of_write clean wrote
  have there : project.disk.aim path = path.names := by
    simp [Files.Disk.aim, absolute]
  rw [there] at held
  refine ⟨encoding, bytes, named, encoded, ?_⟩
  rcases noted with ⟨-, -, rfl⟩ | done
  · exact held
  · cases told : edited.transaction with
    | none =>
      rw [told] at done
      rw [record_eq_ok_none done]
      exact held
    | some id =>
      rw [told] at done
      obtain ⟨-, -, rfl, -⟩ := record_eq_ok done
      -- The record has another suffix than the edited file.
      have apart : (recordFile middle (transactionId (middle.recorded + 1))).names ≠ path.names := by
        intro same
        refine other ((?_ : path.suffix = _).trans (suffix_recordFile middle (middle.recorded + 1)))
        unfold Files.Path.suffix Files.Path.lastName
        rw [same]
      rw [bytes?_of_record done, if_neg apart]
      exact held

/-- The record of an edit holds the text before. -/
theorem noted {id : String} (ends : Ends project path known content r edited after)
    (clean : Files.Path.back ∉ path.names) (recorded : edited.transaction = some id) :
    ∃ number now, id = transactionId number ∧ after.disk.bytes? (recordFile project id).names =
      some (Text.Utf8.encode ((r.toJson now).writeIndented 0).toList) := by
  obtain ⟨-, -, copied, middle, last, cache, wrote, noted, rfl⟩ := ends
  rw [recorded] at noted
  rcases noted with ⟨-, none, -⟩ | done
  · cases none
  · obtain ⟨-, -, named, -⟩ := record_eq_ok done
    have root : middle.root = project.root := (write_eq_ok_holds clean wrote).2.2.root
    refine ⟨_, middle.now, named, ?_⟩
    have held := bytes?_of_record done (recordFile middle id).names
    rw [if_pos rfl] at held
    unfold recordFile at held ⊢
    rw [root] at held
    exact held

/-- An edit leaves the folder and the settings of the project, and its file can be written again. -/
theorem frame (ends : Ends project path known content r edited after) (clean : Files.Path.back ∉ path.names) :
    after.root = project.root ∧ after.settings = project.settings ∧ Plain path ∧
      lacksRoom path draftRoom = false := by
  obtain ⟨-, -, copied, middle, last, cache, wrote, noted, rfl⟩ := ends
  obtain ⟨-, roomy, begun⟩ := write_eq_ok_holds clean wrote
  have same : last.root = middle.root ∧ last.settings = middle.settings := by
    rcases noted with ⟨-, -, rfl⟩ | done
    · exact ⟨rfl, rfl⟩
    · obtain ⟨transaction, last', recorded, beside⟩ := record_beside r middle
      rw [done] at recorded
      cases recorded
      have way := beside [] (outside_root middle)
      exact ⟨way.root, way.settings⟩
  exact ⟨same.1.trans begun.root, same.2.trans begun.settings, plain_of_write wrote, roomy⟩

end Ends

end Project

end Retouch
