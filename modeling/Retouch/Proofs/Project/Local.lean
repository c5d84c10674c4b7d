import Retouch.Proofs.Files.Range
import Retouch.Proofs.Markup.Place
import Retouch.Proofs.Project.Sound
import Retouch.Proofs.Sheet.Extent

/-!
# What an edit changes of its file

An edit replaces a part of the element or of the rule that it is made in; what stands around it stays as it is.
Then the whole text is given the line breaks of the file and its bytes, and these can reach farther: a file with
line breaks of both kinds gets them all alike, and a mark of the encoding comes in front if it was missing.

## Main statements

* `edit_replaces`: the text that an edit makes of its file.
* `edit_local_iff`: when the bytes of the file stay as they are outside the element or the rule.
-/
namespace Retouch

namespace Project

variable {project after : Project} {request : Request} {edited : Edited} {known updated : List Char}
  {inner : List Char} {start stop : Nat}

/-! ### What a request is about -/

/-- The text of the file of a request, and the offsets between which the element or the rule stands that the
request is about. -/
def resolved? (project : Project) (request : Request) : Option (List Char × Nat × Nat) :=
  match request.change with
  | .textUpdate _ _ => do
    let (_, kept) ← (project.perform (openDocument request.target.file)).1.toOption
    let found ← (kept.parsed.find kept.text request.target.line request.target.column).toOption
    let e ← found
    return (kept.text, e.start, e.stop)
  | _ => do
    let selector ← request.target.selectors.getLast?
    let (_, kept) ← (project.perform (openSheet request.target.styleFile)).1.toOption
    let (rule, _) ← (kept.parsed.resolve selector none).toOption
    return (kept.text, rule.start, rule.stop)

/-- The rule that a request is about has both braces, with its declarations between them, also in a sheet with
errors. -/
def Nests (project : Project) (request : Request) : Prop :=
  ∀ selector path kept rule index, request.change.sheetEdit?.isSome = true →
    request.target.selectors.getLast? = some selector →
    (project.perform (openSheet request.target.styleFile)).1 = .ok (path, kept) → kept.parsed.hasError = true →
    kept.parsed.resolve selector none = .ok (rule, index) → rule.Embraced kept.text

/-- A part of a text is replaced by another one, whose ends are no parts of line breaks. -/
structure Replaced (known updated : List Char) (start stop : Nat) (inner : List Char) : Prop where
  whole : updated = known.take start ++ inner ++ known.drop stop
  filled : inner ≠ []
  first : inner.head? ≠ some '\n'
  last : inner.getLast? ≠ some '\r'

/-- What is opened is what would be loaded over a faithful cache. -/
theorem openDocument_of_load (faithful : Faithful project.cache) {file : String} {found : Files.Path × Cached Markup.Document}
    (load : (project.perform (loadDocument file)).1 = .ok found) :
    (project.perform (openDocument file)).1 = .ok found := by
  obtain ⟨cache, result, middle, -, opened, loaded⟩ := loadDocument_faithful faithful file
  rw [loaded] at load
  rw [opened]
  exact load

theorem openSheet_of_load (faithful : Faithful project.cache) {file : String} {found : Files.Path × Cached Sheet}
    (load : (project.perform (loadSheet file)).1 = .ok found) :
    (project.perform (openSheet file)).1 = .ok found := by
  obtain ⟨cache, result, middle, -, opened, loaded⟩ := loadSheet_faithful faithful file
  rw [loaded] at load
  rw [opened]
  exact load

/-- An edit of styles that is made has found a rule, and replaces a part of it. -/
theorem replaces_of_styled {change : Change} {edit : SheetEdit} (styled : change.sheetEdit? = some edit)
    (sheet : Sheet) (selector : String) : Sheet.Replaces sheet selector (edit sheet selector) := by
  have wrapped {α : Type} {outcome : Sheet.Outcome α} (replaces : Sheet.Replaces sheet selector outcome) :
      Sheet.Replaces sheet selector (someResult outcome) := by
    intro a done
    unfold someResult at done
    cases made : outcome.result with
    | error e =>
      rw [made] at done
      cases done
    | ok b => exact replaces b made
  cases change with
  | textUpdate prior new => cases styled
  | cssUpdate property prior new =>
    cases styled
    exact wrapped (sheet.updateDeclaration_replaces selector property prior new)
  | cssAdd property prior new =>
    cases styled
    exact sheet.addDeclaration_replaces selector property prior new
  | cssRemove property prior =>
    cases styled
    exact wrapped (sheet.deleteDeclaration_replaces selector property prior)

/-- The tags of an element are no parts of line breaks. -/
theorem replaced_of_spans {e : Markup.Element} {text before behind : List Char}
    (spans : e.Spans 0 text before behind) (closed : e.closing.isSome = true) (new : List Char) :
    Replaced text (before ++ (Markup.charsOf e.opening ++ Markup.renewed e.children new ++ e.closing.getD []) ++
      behind) e.start e.stop
      (Markup.charsOf e.opening ++ Markup.renewed e.children new ++ e.closing.getD []) := by
  obtain ⟨opens, closes⟩ : (Markup.charsOf e.opening).head? = some '<' ∧ (e.closing.getD []).getLast? = some '>' := by
    have formed := spans.formed
    rw [Markup.Element.piece, Markup.Piece.Formed] at formed
    obtain ⟨tail, there⟩ := Option.isSome_iff_exists.mp closed
    have last := formed.2.1
    rw [there] at last
    exact ⟨formed.1.head, by rw [there]; exact last⟩
  have begins : e.start = before.length := by rw [spans.begins, Nat.zero_add]
  have ends : e.stop = (before ++ e.chars).length := by
    rw [Markup.Element.stop, begins, List.length_append, e.length_chars]
  refine ⟨?_, ?_, ?_, ?_⟩
  · rw [begins, ends, spans.whole, List.drop_left, List.append_assoc before e.chars, List.take_left]
  · intro none
    simp only [List.append_eq_nil_iff] at none
    rw [none.2] at closes
    cases closes
  · rw [List.append_assoc, List.head?_append, opens]
    simp
  · rw [List.getLast?_append, closes]
    simp

/-- The text that an edit makes of its file. -/
theorem edit_replaces (faithful : Faithful project.cache) (nests : Nests project request)
    (done : project.perform (edit request) = (.ok edited, after)) :
    ∃ known updated r start stop inner, resolved? project request = some (known, start, stop) ∧
      Replaced known updated start stop inner ∧
      Ends project (project.resolve (editedFile request)) known updated r edited after := by
  rcases kind_or_styled request with ⟨prior, new, change⟩ | ⟨edit, styled, file⟩
  · have file : editedFile request = request.target.file := by simp [editedFile, change]
    simp only [Project.edit, change] at done
    obtain ⟨-, kept, loaded, updated, r, load, made, -, -, ends, -⟩ := updateText_eq_ok done
    have opened := openDocument_of_load faithful (congrArg Prod.fst load)
    obtain ⟨language, -, read⟩ := openDocument_eq_ok (Prod.ext opened rfl)
    have source : kept.parsed.source = kept.text := by rw [read, Markup.Document.ofChars]
    obtain ⟨e, found, closed, -, -, replaced⟩ := Markup.Document.updateText_eq_ok.mp made
    obtain ⟨place, there⟩ := Markup.Document.elementAt?_of_find found
    obtain ⟨before, behind, spans⟩ := Markup.Document.elementAt?_spans _ there
    rw [source] at spans replaced
    rw [Markup.Element.replaceText_eq spans] at replaced
    cases replaced
    rw [file]
    refine ⟨_, _, r, _, _, _, ?_, replaced_of_spans spans closed new.toList, ends⟩
    simp [resolved?, change, opened, found, Except.toOption]
  · rw [edit_eq_editSheet styled] at done
    obtain ⟨-, selector, kept, loaded, r, chosen, load, made, -, -, ends, -⟩ := editSheet_ends done
    have opened := openSheet_of_load faithful (congrArg Prod.fst load)
    obtain ⟨-, -, -, read⟩ := openSheet_eq_ok (Prod.ext opened rfl)
    have source : kept.parsed.source = kept.text := by rw [read, Sheet.ofChars]
    obtain ⟨rule, index, found, splice⟩ := replaces_of_styled styled kept.parsed selector _ made
    -- The rule has both its braces: the sheet has no errors, or it is so assumed.
    have embraced : rule.Embraced kept.parsed.source := by
      cases sound : kept.parsed.hasError with
      | false => exact Sheet.embraced_of_sound sound (List.mem_of_getElem? (Sheet.resolve_eq_ok found))
      | true =>
        rw [source]
        exact nests selector _ kept rule index (by rw [styled]; rfl) chosen opened sound found
    obtain ⟨inner, whole, first, last⟩ := (splice embraced).source embraced
    rw [file]
    rw [source] at whole
    refine ⟨_, _, r, rule.start, rule.stop, inner, ?_, ⟨whole, ?_, first, ?_⟩, ends⟩
    · unfold resolved?
      cases change : request.change with
      | textUpdate prior new =>
        rw [change] at styled
        cases styled
      | _ => simp [chosen, opened, found, Except.toOption]
    · rintro rfl
      cases last
    · rw [last]
      decide

/-! ### The bytes of the file -/

/-- A text is given its line breaks around a part that was replaced as it is without that part. -/
theorem Replaced.apply_eq (replaced : Replaced known updated start stop inner) (kind : Text.LineBreak) :
    kind.apply updated = kind.apply (known.take start) ++ kind.apply inner ++ kind.apply (known.drop stop) := by
  have last : Text.LineBreak.Apart (known.take start ++ inner) (known.drop stop) := by
    intro ends
    rw [List.getLast?_append_of_ne_nil _ replaced.filled] at ends
    exact absurd ends replaced.last
  rw [replaced.whole, Text.LineBreak.apply_append kind last,
    Text.LineBreak.apply_append kind fun _ => replaced.first]

/-- The text around a part of it that is replaced has no other line breaks than those that the whole text is
given, and no mark is missing in front of it. -/
structure Untouchable (encoding : Files.Encoding) (bytes : Text.Bytes) (known : List Char) (start stop : Nat) :
    Prop where
  front : (Text.LineBreak.ofText known).Pure (known.take start)
  /-- What stands behind may begin in the middle of a line break. -/
  behind : (Text.LineBreak.ofText known).Pure (known.drop stop) ∨
    ∃ rest, known.drop stop = '\n' :: rest ∧ (Text.LineBreak.ofText known).Pure rest
  marked : encoding.Marked bytes ∨ known.take start = []

/-- No edit reaches beyond its element or its rule in a file with line breaks of one kind. -/
theorem Untouchable.of_pure {encoding : Files.Encoding} {bytes : Text.Bytes}
    (pure : (Text.LineBreak.ofText known).Pure known) (marked : encoding.Marked bytes) (start stop : Nat) :
    Untouchable encoding bytes known start stop := by
  have first : (Text.LineBreak.ofText known).Pure (known.take start ++ known.drop start) := by
    rwa [List.take_append_drop]
  have last : (Text.LineBreak.ofText known).Pure (known.take stop ++ known.drop stop) := by
    rwa [List.take_append_drop]
  exact ⟨first.front, last.behind, .inl marked⟩

/-- When the bytes of the file stay as they are outside the element or the rule of an edit that is made. -/
theorem edit_local_iff (absolute : project.root.absolute = true) (faithful : Faithful project.cache)
    (nests : Nests project request) (done : project.perform (edit request) = (.ok edited, after)) :
    ∃ encoding bytes known start stop new,
      Files.Encoding.ofName? project.settings.encoding = some encoding ∧
      project.disk.bytes? (project.resolve (editedFile request)).names = some bytes ∧
      encoding.decode bytes = .ok known ∧ resolved? project request = some (known, start, stop) ∧
      after.disk.bytes? (project.resolve (editedFile request)).names = some new ∧
      (Files.AgreeOutside (encoding.place bytes known start) (encoding.place bytes known stop) bytes new ↔
        Untouchable encoding bytes known start stop) := by
  obtain ⟨known, updated, r, start, stop, inner, found, replaced, ends⟩ := edit_replaces faithful nests done
  obtain ⟨other, -⟩ := edit_eq_ok done
  have path : (project.resolve (editedFile request)).absolute = true := absolute_resolve absolute _
  have clean := Files.Path.not_mem_normal (project.root.join (.ofText (editedFile request)))
  obtain ⟨⟨bytes, encoding, read, named, decoded⟩, told⟩ := ends.reads
  obtain ⟨encoding', new, named', encoded, held⟩ := ends.written clean other path
  rw [named] at named'
  cases named'
  refine ⟨encoding, bytes, known, start, stop, new, named, bytes?_of_read path clean read, decoded, found, held, ?_⟩
  -- A text without pairs has none in its parts.
  have feeds (kind : Text.LineBreak.ofText known = .feed) : Text.LineBreak.feed.Pure (known.take start) ∧
      Text.LineBreak.feed.Pure (known.drop stop) := by
    have whole := Text.LineBreak.pure_of_ofText kind
    have first := List.take_append_drop start known
    have last := List.take_append_drop stop known
    exact ⟨(first.symm ▸ whole).parts.1, (last.symm ▸ whole).parts.2⟩
  have filled : (Text.LineBreak.ofText known).apply inner ≠ [] := Text.LineBreak.apply_ne_nil replaced.filled
  rw [Files.Encoding.agreeOutside_iff decoded feeds filled (told.trans (replaced.apply_eq _)) encoded]
  exact ⟨fun ⟨⟨front, behind⟩, marked⟩ => ⟨front, behind, marked⟩,
    fun ⟨front, behind, marked⟩ => ⟨⟨front, behind⟩, marked⟩⟩

/-- The edit of a page with line feeds leaves the bytes behind the element. -/
theorem edit_local_iff_page : ∃ edited after new,
    (pageProject lineText).perform (edit (firstRequest "x" "z")) = (.ok edited, after) ∧
      after.disk.bytes? ["page", "a.tsx"] = some new ∧
      Files.AgreeOutside 0 8 (Text.Utf8.encode lineText.toList) new := by
  have absolute : (pageProject lineText).root.absolute = true := by decide
  have nests : Nests (pageProject lineText) (firstRequest "x" "z") := by
    intro _ _ _ _ _ styled
    cases styled
  have some_ : ((pageProject lineText).perform (edit (firstRequest "x" "z"))).1.toOption.isSome = true := by
    decide +kernel
  have place : ((pageProject lineText).resolve (editedFile (firstRequest "x" "z"))).names = ["page", "a.tsx"] := by
    decide +kernel
  have text : resolved? (pageProject lineText) (firstRequest "x" "z") = some (lineText.toList, 0, 8) := by
    decide +kernel
  rcases made : (pageProject lineText).perform (edit (firstRequest "x" "z")) with ⟨e | edited, after⟩
  · rw [made] at some_
    cases some_
  · obtain ⟨encoding, bytes, known, start, stop, new, named, before, decoded, found, held, agree⟩ :=
      edit_local_iff absolute faithful_empty nests made
    rw [text] at found
    cases found
    obtain rfl : encoding = .utf8 := Option.some.inj (named.symm.trans (by decide))
    rw [place] at before held
    have whole : (pageProject lineText).disk.bytes? ["page", "a.tsx"] = some (Text.Utf8.encode lineText.toList) := by
      decide +kernel
    obtain rfl := Option.some.inj (whole.symm.trans before)
    have marked : Files.Encoding.utf8.Marked (Text.Utf8.encode lineText.toList) := List.nil_prefix
    exact ⟨edited, after, new, rfl, held,
      agree.mpr (.of_pure (by decide +kernel) marked 0 8)⟩

/-- A sheet with line breaks of both kinds. -/
def mixedText : String := ".a \x7b font-weight: bold; \x7d\x0d\n.b \x7b top: 0; \x7d\n"

/-- The edit of a rule changes the line breaks behind it, if the sheet has some of both kinds. -/
theorem edit_reaches_behind :
    ((sheetProject mixedText).perform (edit (styleRequest normalChange))).1.toOption.isSome = true ∧
      resolved? (sheetProject mixedText) (styleRequest normalChange) = some (mixedText.toList, 0, 25) ∧
      ∃ new, ((sheetProject mixedText).perform (edit (styleRequest normalChange))).2.disk.bytes? ["page", "a.css"] =
          some new ∧ ¬Files.AgreeOutside 0 25 (Text.Utf8.encode mixedText.toList) new := by
  refine ⟨by decide +kernel, by decide +kernel,
    Text.Utf8.encode ".a \x7b font-weight: normal; \x7d\x0d\n.b \x7b top: 0; \x7d\x0d\n".toList, by decide +kernel, ?_⟩
  rintro ⟨middle, same⟩
  have behind : (Text.Utf8.encode mixedText.toList).drop 25 <:+ _ := ⟨_, same.symm⟩
  revert behind
  decide +kernel

end Project

end Retouch
