import Retouch.Proofs.Files.Encoding
import Retouch.Proofs.Files.PathText
import Retouch.Proofs.Json.Written
import Retouch.Proofs.Project.Committed
import Retouch.Proofs.Text.LineBreak

/-!
# Edits that are undone by their record

A record is read as it was written, and to undo an edit is to write the text that the record holds. The text
gets the line breaks that the file has by then, which are those of the edited text and need not be its own.

## Main statements

* `transaction?_run`: a record that is still there is found and read as it was written.
* `overwrite_run`: a text that is written over a file that can be written, and the bytes that the file holds
  afterwards.
* `Remembered.undo_restores_iff`: to undo an edit always succeeds, and brings back the bytes of the file just if
  the text before had the line breaks that are found in the edited text, and no others.
-/
namespace Retouch.Project

section Runs

variable {project after : Project} {path : Files.Path} {known content : List Char} {bytes : Text.Bytes}
  {encoding : Files.Encoding} {r : Record} {now id : String}

/-! ### Records that are read -/

/-- The members of a record. -/
def Record.members (r : Record) (now : String) : Json.Members :=
  [("timestamp", .str now), ("transform_type", .str r.kind), ("request_id", .str r.requestId),
    ("files", .arr (r.patches.map fun patch => (patch.lookup fileKey).getD .null)),
    (patchesKey, .arr (r.patches.map .obj)), ("metadata", .obj r.metadata)]

/-- The patches of a record are found in it, also when it tells its id. -/
theorem patchesOf_record (r : Record) (now id : String) :
    patchesOf ((r.members now).insert idKey (.str id)) = .ok (r.patches.map .obj) := by
  unfold patchesOf
  rw [Json.Members.lookup_insert, if_neg (by decide)]
  rfl

/-- What a record of a text tells. -/
theorem readable_toJson (patch : Patch) (patches : r.patches = [patch.members]) (metadata : Textual r.metadata)
    (now : String) : Json.Readable Json.nestingLimit (r.toJson now) := by
  have text (depth : Nat) (member : String × Json) (told : ∃ s, member.2 = .str s) :
      Json.Readable depth member.2 := by
    obtain ⟨s, same⟩ := told
    rw [same]
    exact .str s
  refine .obj (by simp [patchesKey]) fun member told => ?_
  simp only [List.mem_cons, List.not_mem_nil, or_false] at told
  -- The members one by one: only the last three are no plain texts.
  rcases told with rfl | rfl | rfl | rfl | rfl | rfl
  · exact .str _
  · exact .str _
  · exact .str _
  · refine .arr fun item member => ?_
    rw [patches] at member
    obtain rfl := List.mem_singleton.mp member
    exact .str _
  · refine .arr fun item member => ?_
    rw [patches] at member
    obtain rfl := List.mem_singleton.mp member
    refine .obj (by simp [Patch.members, fileKey, contentKey]) fun member told => text _ member ?_
    simp only [Patch.members, List.mem_cons, List.not_mem_nil, or_false] at told
    rcases told with rfl | rfl <;> exact ⟨_, rfl⟩
  · exact .obj metadata.names fun member told => text _ member (metadata.texts member told)

/-- A record is read as it was written. -/
theorem readRecord?_run {members : Json.Members} (readable : Json.Readable Json.nestingLimit (.obj members))
    (held : project.disk.read path =
      .ok (Text.Utf8.encode ((Json.obj members).writeIndented 0).toList)) :
    project.perform (readRecord? path) = (.ok (some members), project) := by
  unfold readRecord?
  rw [perform_bind_ok _ (perform_get _), held]
  dsimp only
  rw [Text.Utf8.decode_encode, lift, perform_bind_ok _ (perform_pure _ _),
    Text.LineBreak.unify_eq_self (Json.carriage_not_mem_writeIndented readable 0),
    Json.readChars_writeIndented readable 0]
  rfl

/-- A number is written without slashes. -/
theorem slash_not_mem_number (number : Nat) : '/' ∉ (toString number).toList := by
  intro member
  rw [Nat.toString_eq_repr, Nat.toList_repr] at member
  exact absurd (Nat.isDigit_of_mem_toDigits (by decide) (by decide) member) (by decide)

theorem name_recordFile (number : Nat) : Files.Path.Name (transactionId number ++ recordSuffix) := by
  have slash : '/' ∉ (transactionId number ++ recordSuffix).toList := by
    unfold transactionId recordSuffix
    simp only [String.toList_append, List.mem_append, not_or]
    exact ⟨⟨by decide, slash_not_mem_number number⟩, by decide⟩
  refine ⟨?_, ?_, slash⟩
  · simp [transactionId]
  · simp [transactionId]

/-- A record that is still there is found, and read as it was written. -/
theorem transaction?_run {members : Json.Members} {number : Nat}
    (readable : Json.Readable Json.nestingLimit (.obj members))
    (held : project.disk.read (recordFile project (transactionId number)) =
      .ok (Text.Utf8.encode ((Json.obj members).writeIndented 0).toList)) :
    project.perform (transaction? (transactionId number)) =
      (.ok (some (members.insert idKey (.str (transactionId number)))), project) := by
  obtain ⟨place, age, found, there⟩ := Files.Disk.read_eq_ok.mp held
  have joined : (historyFolder project.root).join (.ofText (transactionId number ++ recordSuffix)) =
      recordFile project (transactionId number) :=
    Files.Path.join_name (name_recordFile number) _
  have present : project.disk.find? (recordFile project (transactionId number)) = .ok (project.disk.node? place) := by
    unfold Files.Disk.find?
    rw [found]
  unfold transaction?
  rw [perform_bind_ok _ (perform_get _)]
  dsimp only
  rw [joined, present, lift, perform_bind_ok _ (perform_pure _ _), there]
  dsimp only
  rw [perform_bind_ok _ (readRecord?_run readable held)]
  rfl

/-! ### Texts that are written back -/

/-- A text that is written over a file that can be written, and the bytes that the file holds afterwards. -/
theorem overwrite_run (clean : Files.Path.back ∉ path.names) (plain : Plain path)
    (roomy : lacksRoom path draftRoom = false) (aside : OutsideCopies project (project.disk.aim path))
    (holds : Holds project path known)
    (named : Files.Encoding.ofName? project.settings.encoding = some encoding)
    (encoded : encoding.encode ((Text.LineBreak.ofText known).apply content) = .ok bytes) :
    ∃ written after, project.perform (write path content none) = (.ok written, after) ∧
      after.disk.read path = .ok bytes := by
  have inner := aim_ne_nil clean holds
  have unasked : ∀ text, none = some text → known = text := nofun
  obtain ⟨copied, middle, prepared, beside⟩ := prepareWrite_runs plain holds unasked
  have way := beside _ aside
  obtain ⟨_, _, read, -⟩ := holds
  obtain ⟨place, _, found, -⟩ := Files.Disk.read_eq_ok.mp (way.spares.read clean read)
  obtain rfl : place = project.disk.aim path := by
    rw [Files.Disk.locate_clean clean found, Files.Disk.aim, way.spares.home]
    rfl
  have replaced := replaceFile_eq_ok_iff.mpr
    ⟨_, encoding, bytes, found, roomy, way.settings ▸ named, encoded, rfl⟩
  unfold write
  rw [perform_bind_ok _ prepared, perform_bind_ok _ replaced]
  exact ⟨_, _, rfl, Files.Disk.read_write clean found inner bytes⟩

theorem perform_forget (names : List String) (project : Project) :
    ∃ cache, project.perform (forget names) = (.ok (), { project with cache }) := by
  induction names generalizing project with
  | nil => exact ⟨project.cache, rfl⟩
  | cons name rest ih =>
    unfold forget
    rw [perform_bind_ok _ (perform_get _), perform_bind_ok _ (perform_modifyCache _ _)]
    obtain ⟨cache, done⟩ := ih _
    exact ⟨cache, done⟩

theorem toText_truthy (absolute : path.absolute = true) : (Json.str path.toText).isTruthy = true := by
  have text : path.toText ≠ "" := by
    rw [Files.Path.toText, if_pos absolute]
    simp
  simpa [Json.isTruthy] using text

/-- To undo what a record of one file tells is to write the text that it holds. -/
theorem undo_run {written : List Char × Bool} {number : Nat} {text : List Char} (proper : path.Proper)
    (patches : r.patches = [Patch.members ⟨path, text⟩]) (metadata : Textual r.metadata)
    (held : project.disk.read (recordFile project (transactionId number)) =
      .ok (Text.Utf8.encode ((r.toJson now).writeIndented 0).toList))
    (wrote : project.perform (write path text none) = (.ok written, after)) :
    ∃ cache, project.perform (undo (transactionId number)) =
      (.ok { applied := [path.toText] }, { after with cache }) := by
  have recorded := transaction?_run (readable_toJson ⟨path, text⟩ patches metadata now) held
  have patched : project.perform (applyPatch (.str path.toText) (.str (String.ofList text))) = (.ok none, after) := by
    unfold applyPatch
    dsimp only
    rw [Files.Path.ofText_toText proper, String.toList_ofList, perform_try, perform_bind_ok _ wrote]
    rfl
  have applied : project.perform (applyPatches [.obj (Patch.members ⟨path, text⟩)] {}) =
      (.ok { applied := [path.toText] }, after) := by
    have file : (List.lookup fileKey (Patch.members ⟨path, text⟩)).getD .null = .str path.toText := rfl
    have content : (List.lookup contentKey (Patch.members ⟨path, text⟩)).getD .null = .str (String.ofList text) := rfl
    unfold applyPatches
    dsimp only
    rw [file, content, toText_truthy proper.absolute, if_neg (by simp), perform_bind_ok _ patched]
    rfl
  obtain ⟨cache, forgot⟩ := perform_forget [path.toText] after
  refine ⟨cache, ?_⟩
  unfold undo
  rw [perform_bind_ok _ recorded]
  dsimp only
  rw [← Record.members, patchesOf_record, patches, lift, perform_bind_ok _ (perform_pure _ _), List.map_singleton,
    perform_bind_ok _ applied, perform_bind_ok _ forgot]
  rfl

end Runs

/-! ### Edits that are remembered -/

/-- A file is still as it was in an earlier state. -/
def Kept (before after : Project) (path : Files.Path) : Prop :=
  ∃ bytes, before.disk.bytes? path.names = some bytes ∧ after.disk.read path = .ok bytes

theorem Kept.refl {project : Project} {path : Files.Path} {bytes : Text.Bytes} (absolute : path.absolute = true)
    (clean : Files.Path.back ∉ path.names) (read : project.disk.read path = .ok bytes) : Kept project project path :=
  ⟨bytes, bytes?_of_read absolute clean read, read⟩

/-- An edit that was recorded, and any later state in which its file and its record are still as it left them. -/
structure Remembered where
  before : Project
  request : Request
  edited : Edited
  after : Project
  id : String
  later : Project
  /-- What the file held before the edit. -/
  bytes : Text.Bytes
  proper : before.root.Proper
  made : before.perform (edit request) = (.ok edited, after)
  recorded : edited.transaction = some id
  held : before.disk.read (before.resolve (editedFile request)) = .ok bytes
  root : later.root = after.root
  settings : later.settings = after.settings
  file_kept : Kept after later (before.resolve (editedFile request))
  record_kept : Kept after later (recordFile after id)
  outside : OutsideCopies later (before.resolve (editedFile request)).names

namespace Remembered

/-- The file that was edited. -/
def path (m : Remembered) : Files.Path := m.before.resolve (editedFile m.request)

theorem proper_path (m : Remembered) : m.path.Proper := (m.proper.join _).normal

theorem clean (m : Remembered) : Files.Path.back ∉ m.path.names := Files.Path.not_mem_normal _

/-- A recorded edit is undone by writing what the file held before it, whose line breaks become those of the
edited text. -/
theorem undo_writes (m : Remembered) :
    ∃ encoding text bytes undone last, Files.Encoding.ofName? m.before.settings.encoding = some encoding ∧
      encoding.decode m.bytes = .ok text ∧
      encoding.encode ((Text.LineBreak.ofText m.edited.content).apply text) = .ok bytes ∧
      m.later.perform (undo m.id) = (.ok undone, last) ∧ undone.success = true ∧
      last.disk.read m.path = .ok bytes := by
  obtain ⟨other, text, updated, r, -, ends⟩ := edit_eq_ok m.made
  obtain ⟨encoding, written, named, encoded, there⟩ := ends.written m.clean other m.proper_path.absolute
  obtain ⟨root, settings, plain, roomy⟩ := ends.frame m.clean
  obtain ⟨number, now, named_id, recorded⟩ := ends.noted m.clean m.recorded
  -- What the file held before is the text that is recorded.
  have decoded : encoding.decode m.bytes = .ok text := by
    obtain ⟨bytes, encoding', read, named', decoded⟩ := ends.reads.1
    rw [named] at named'
    cases named'
    obtain rfl : m.bytes = bytes := Except.ok.inj (m.held.symm.trans read)
    exact decoded
  -- The later state still holds the edited text and its record.
  have holds : Holds m.later m.path m.edited.content := by
    obtain ⟨bytes, before, later⟩ := m.file_kept
    obtain rfl : written = bytes := Option.some.inj (there.symm.trans before)
    exact ⟨written, encoding, later, by rw [m.settings, settings, named], Files.Encoding.decode_encode encoded⟩
  have record : m.later.disk.read (recordFile m.later (transactionId number)) =
      .ok (Text.Utf8.encode ((r.toJson now).writeIndented 0).toList) := by
    obtain ⟨bytes, before, later⟩ := m.record_kept
    unfold recordFile at before later recorded ⊢
    rw [root, recorded] at before
    obtain rfl := Option.some.inj before
    rw [m.root, ← named_id, later]
  have covers : encoding.Covers ((Text.LineBreak.ofText m.edited.content).apply text) := by
    intro c member
    rcases Text.LineBreak.mem_apply member with old | rfl
    · exact Files.Encoding.covers_of_decode decoded c old
    · cases encoding <;> decide
  have encoded' := Files.Encoding.encode_eq_ok_iff.mpr ⟨covers, rfl⟩
  have aim : m.later.disk.aim m.path = m.path.names := by
    simp [Files.Disk.aim, m.proper_path.absolute]
  obtain ⟨_, last, wrote, read⟩ := overwrite_run m.clean plain roomy (aim ▸ m.outside) holds
    (by rw [m.settings, settings, named]) encoded'
  obtain ⟨cache, undone⟩ := undo_run m.proper_path ends.patches ends.metadata record wrote
  rw [← named_id] at undone
  exact ⟨encoding, text, _, _, _, named, decoded, encoded', undone, rfl, read⟩

/-- To undo a recorded edit succeeds, and brings back the bytes of the file just if all line breaks of the text
before are of the kind that is found in the edited text, and no mark of the encoding was missing. -/
theorem undo_restores_iff (m : Remembered) :
    ∃ encoding text undone last, Files.Encoding.ofName? m.before.settings.encoding = some encoding ∧
      encoding.decode m.bytes = .ok text ∧
      m.later.perform (undo m.id) = (.ok undone, last) ∧ undone.success = true ∧
      (last.disk.read m.path = .ok m.bytes ↔
        (Text.LineBreak.ofText m.edited.content).Pure text ∧ encoding.Marked m.bytes) := by
  obtain ⟨encoding, text, bytes, undone, last, named, decoded, encoded, done, success, read⟩ := m.undo_writes
  refine ⟨encoding, text, undone, last, named, decoded, done, success, ?_⟩
  rw [read, Except.ok.injEq]
  constructor
  · rintro rfl
    -- The bytes are those of the text with other line breaks, but read as the text.
    have same : (Text.LineBreak.ofText m.edited.content).apply text = text :=
      Except.ok.inj ((Files.Encoding.decode_encode encoded).symm.trans decoded)
    rw [same] at encoded
    exact ⟨same, (Files.Encoding.encode_iff_marked decoded).mp encoded⟩
  · rintro ⟨same, marked⟩
    rw [show (Text.LineBreak.ofText m.edited.content).apply text = text from same,
      (Files.Encoding.encode_iff_marked decoded).mpr marked] at encoded
    exact (Except.ok.inj encoded).symm

end Remembered

/-! ### Pages with line breaks -/

/-- A project with one page. -/
def pageProject (text : String) : Project where
  root := .ofText "/page"
  disk :=
    { nodes := [(["page"], .folder), (["page", "a.tsx"], .file ⟨Text.Utf8.encode text.toList, 0⟩)]
      writes := 1 }

/-- An edit of the element at the beginning of the page. -/
def firstRequest (prior new : String) : Request := ⟨"1", ⟨"a.tsx", 1, 1, "", []⟩, .textUpdate prior new⟩

/-- Whether an edit of the page is made and recorded, gives a text with such line breaks, and both files are
there afterwards. -/
def remembers (text prior new : String) (kind : Text.LineBreak) : Bool :=
  let outcome := (pageProject text).perform (edit (firstRequest prior new))
  outcome.1.toOption.bind Edited.transaction == some "tx1" && outcome.2.root == .ofText "/page" &&
    !outcome.2.settings.backups &&
    outcome.1.toOption.map (fun edited => Text.LineBreak.ofText edited.content) == some kind &&
    [Files.Path.ofText "/page/a.tsx", .ofText "/page/.alara/history/tx1.json"].all fun path =>
      (outcome.2.disk.read path).toOption.isSome

private theorem remembered_page (text prior new : String) (kind : Text.LineBreak)
    (held : ((pageProject text).disk.read (.ofText "/page/a.tsx")).toOption = some (Text.Utf8.encode text.toList))
    (done : remembers text prior new kind = true) :
    ∃ m : Remembered, m.before = pageProject text ∧ m.bytes = Text.Utf8.encode text.toList ∧
      Text.LineBreak.ofText m.edited.content = kind := by
  unfold remembers at done
  rcases made : (pageProject text).perform (edit (firstRequest prior new)) with ⟨e | edited, after⟩
  · simp only [made, Bool.and_eq_true, beq_iff_eq] at done
    cases done.1.1.1.1
  · simp only [made, Bool.and_eq_true, List.all_cons, List.all_nil, beq_iff_eq, Bool.not_eq_true'] at done
    obtain ⟨⟨⟨⟨recorded, root⟩, plain⟩, breaks⟩, page, note, -⟩ := done
    have kept {path : Files.Path} (absolute : path.absolute = true) (clean : Files.Path.back ∉ path.names)
        (there : (after.disk.read path).toOption.isSome = true) : Kept after after path := by
      obtain ⟨bytes, read⟩ := Option.isSome_iff_exists.mp there
      exact Kept.refl absolute clean (eq_ok_of_toOption read)
    have resolved : (pageProject text).resolve "a.tsx" = .ofText "/page/a.tsx" := by
      show ((Files.Path.ofText "/page").join (.ofText "a.tsx")).normal = _
      decide
    have noted : recordFile after "tx1" = .ofText "/page/.alara/history/tx1.json" := by
      unfold recordFile
      rw [root]
      decide
    have absolute : (Files.Path.ofText "/page").absolute = true := by decide
    have named : editedFile (firstRequest prior new) = "a.tsx" := rfl
    refine ⟨⟨pageProject text, firstRequest prior new, edited, after, "tx1", after, _,
      ⟨absolute, fun name member => Files.Path.name_of_ofText member⟩, made, recorded, ?_, rfl, rfl, ?_, ?_, ?_⟩,
      rfl, rfl, Option.some.inj breaks⟩
    · rw [named, resolved]
      exact eq_ok_of_toOption held
    · rw [named, resolved]
      exact kept (by decide) (by decide) page
    · rw [noted]
      exact kept (by decide) (by decide) note
    · intro wanted
      rw [plain] at wanted
      cases wanted

def lineText : String := "<p>x</p>;\n<b>y</b>;\n"

/-- A page whose only line break, a pair, is in the text of its element. -/
def brokenText : String := "<p>a\r\nb</p>"

private theorem utf8_page {text : String} {encoding : Files.Encoding}
    (named : Files.Encoding.ofName? (pageProject text).settings.encoding = some encoding) : encoding = .utf8 := by
  have name : Files.Encoding.ofName? "utf-8" = some .utf8 := by decide
  exact Option.some.inj (named.symm.trans name)

/-- An edit of a page with line feeds is undone to the byte. -/
theorem Remembered.undo_restores_iff_lines : ∃ m : Remembered, m.bytes = Text.Utf8.encode lineText.toList ∧
    ∃ undone last, m.later.perform (undo m.id) = (.ok undone, last) ∧ undone.success = true ∧
      last.disk.read m.path = .ok m.bytes := by
  obtain ⟨m, before, bytes, kind⟩ := remembered_page lineText "x" "z" .feed (by decide +kernel)
    (by decide +kernel)
  obtain ⟨encoding, text, undone, last, named, decoded, done, success, restored⟩ := m.undo_restores_iff
  refine ⟨m, bytes, undone, last, done, success, restored.mpr ?_⟩
  rw [before] at named
  obtain rfl := utf8_page named
  rw [bytes, Files.Encoding.decode_encode rfl] at decoded
  obtain rfl := Except.ok.inj decoded
  rw [kind]
  exact ⟨by decide +kernel, List.nil_prefix⟩

/-- An edit that takes away the only pair of a page is not undone to the byte: a line feed comes back. -/
theorem pair_not_restored : ∃ m : Remembered, m.bytes = Text.Utf8.encode brokenText.toList ∧
    ∃ undone last, m.later.perform (undo m.id) = (.ok undone, last) ∧ last.disk.read m.path ≠ .ok m.bytes := by
  obtain ⟨m, before, bytes, kind⟩ := remembered_page brokenText "a b" "x" .feed (by decide +kernel)
    (by decide +kernel)
  obtain ⟨encoding, text, bytes', undone, last, named, decoded, encoded, done, -, read⟩ := m.undo_writes
  refine ⟨m, bytes, undone, last, done, ?_⟩
  rw [before] at named
  obtain rfl := utf8_page named
  rw [bytes, Files.Encoding.decode_encode rfl] at decoded
  obtain rfl := Except.ok.inj decoded
  rw [kind] at encoded
  rw [read, bytes]
  intro same
  rw [Except.ok.inj same] at encoded
  revert encoded
  decide +kernel

end Retouch.Project
