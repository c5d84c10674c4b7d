import Retouch.Proofs.Markup.Place
import Retouch.Proofs.Markup.Shown

/-!
# Opposite edits of a text

The edit from one text of an element to another one, and the edit back: the element must show the second text to
be found again, and it shows the first one in the end if the run that is replaced is the same. Between texts that
begin with words this is so.

## Main statements

* `Reverts.of_worded`: when the opposite edit brings back what was shown.
* `Document.updateText_iff`: when an element of a document can be given another text.
-/
namespace Retouch.Markup

variable {c : Char} {children : List Piece} {prior new : String} {d : Document} {e : Element}
  {updated : List Char}

/-! ### Texts that are shown -/

theorem Element.textContent_eq {e : Element} (closed : e.closing.isSome = true) :
    e.textContent = shown e.children := by
  obtain ⟨tag, there⟩ := Option.isSome_iff_exists.mp closed
  unfold textContent shown
  rw [there]
  cases textRun? e.children <;> rfl

/-- The words of a text that is shown are those of the run, if there is one. -/
theorem words_of_shown (same : shown children = Text.collapsedText prior) :
    Text.words prior.toList = [] ∨
      ∃ front run, textRun? children = some (front, run) ∧ Text.words run = Text.words prior.toList := by
  unfold shown Text.collapsedText at same
  split at same
  · rename_i front run found
    exact .inr ⟨front, run, found, Text.words_eq_of_collapsed (String.ofList_injective same)⟩
  · left
    have empty : Text.collapsed [] = Text.collapsed prior.toList := String.ofList_injective same
    exact (Text.words_eq_of_collapsed empty).symm

/-- A text that is shown holds no sign of markup. -/
theorem unmarked_of_shown (mild : ∀ piece ∈ children, piece.Mild) (same : shown children = Text.collapsedText prior) :
    Unmarked prior.toList := by
  intro c member
  cases blank : Text.isBlank c with
  | true =>
    have plain := Text.of_blank (p := fun c => !isMarkupMark c) (by decide) blank
    simpa using plain
  | false =>
    obtain ⟨word, there, inside⟩ := Text.mem_words member blank
    rcases words_of_shown same with none | ⟨front, run, found, words⟩
    · rw [none] at there
      cases there
    · obtain ⟨pieces, behind, flat, -, whole⟩ := run_of_textRun? mild found
      have character : c ∈ charsOf pieces := by
        rw [← whole]
        exact List.mem_append_left _ (Text.mem_of_mem_words (words ▸ there) inside)
      refine unmarked_of_mild (fun piece member => mild piece (flat piece member).1) (fun piece member => ?_) c character
      exact (flat piece member).2

/-! ### There and back -/

/-- The opposite edits of the text of an element: the first text is found again, everything has its place, and
what was shown before is shown again. -/
structure Reverts (children : List Piece) (prior new : String) : Prop where
  found : Text.allBlank new.toList = true ∨ shown (retold children new.toList) = Text.collapsedText new
  sound : areSound (retold (retold children new.toList) prior.toList) = true
  restored : shown (retold (retold children new.toList) prior.toList) = shown children

/-- Edits between texts that begin with words are opposite. -/
theorem Reverts.of_worded (mild : ∀ piece ∈ children, piece.Mild)
    (same : shown children = Text.collapsedText prior) (worded : Worded prior.toList) (worded' : Worded new.toList)
    (unmarked : Unmarked new.toList) (sound' : areSound (retold children new.toList) = true) :
    Reverts children prior new := by
  obtain ⟨front, run, found, words⟩ : ∃ front run, textRun? children = some (front, run) ∧
      Text.words run = Text.words prior.toList := by
    refine (words_of_shown same).resolve_left fun none => ?_
    obtain ⟨c, first, -⟩ := worded
    have inside : c ∈ prior.toList :=
      (List.dropWhile_suffix Text.isBlank).subset (List.mem_of_mem_head? first)
    obtain ⟨word, there, -⟩ := Text.mem_words inside (Text.head?_dropWhile _ c first)
    rw [none] at there
    cases there
  obtain ⟨front', run', found', words'⟩ := shown_retold mild found unmarked worded' sound'
  have mild' := mild_retold mild found new.toList
  have unmarked' := unmarked_of_shown mild same
  -- The references of the first text are those of the children.
  have sound'' : areSound (retold (retold children new.toList) prior.toList) = true := by
    obtain ⟨pieces, behind, flat, blank, whole⟩ := run_of_textRun? mild found
    have complete := refers_of_mild (fun piece member => mild piece (flat piece member).1)
      fun piece member => (flat piece member).2
    rw [← whole, refers_words, Text.words_append_blanks blank, words] at complete
    rw [areSound_retold sound' mild' found' unmarked', complete]
  obtain ⟨front'', run'', found'', words''⟩ := shown_retold mild' found' unmarked' worded sound''
  refine ⟨.inr ?_, sound'', ?_⟩
  · simp only [shown, found', Text.collapsedText, Text.collapsed, words']
  · rw [same]
    simp only [shown, found'', Text.collapsedText, Text.collapsed, words'']

/-! ### Pieces that are the same -/

mutual

/-- Whether two pieces are the same. -/
def Piece.same : Piece → Piece → Bool
  | .code a, .code b => a == b
  | .stray a, .stray b => a == b
  | .text a, .text b => a == b
  | .reference a, .reference b => a == b
  | .braces a, .braces b => sameAll a b
  | .element name opening children closing, .element name' opening' children' closing' =>
    name == name' && sameAll opening opening' && sameAll children children' && closing == closing'
  | _, _ => false
termination_by structural piece => piece

def sameAll : List Piece → List Piece → Bool
  | [], [] => true
  | a :: as, b :: bs => a.same b && sameAll as bs
  | _, _ => false
termination_by structural pieces => pieces

end

mutual

theorem Piece.same_iff (a b : Piece) : a.same b = true ↔ a = b := by
  cases a <;> cases b <;> simp [Piece.same, sameAll_iff, and_assoc]
termination_by structural a

theorem sameAll_iff (as bs : List Piece) : sameAll as bs = true ↔ as = bs := by
  cases as <;> cases bs <;> simp [sameAll, sameAll_iff, Piece.same_iff]
termination_by structural as

end

instance : DecidableEq Piece := fun a b => decidable_of_iff _ (Piece.same_iff a b)

deriving instance DecidableEq for Element

/-! ### Documents -/

/-- The element with another text. -/
def Element.retold (e : Element) (new : List Char) : Element := { e with children := Markup.retold e.children new }

namespace Document

/-- The document with another text of an element. -/
def retell (d : Document) (e : Element) (new : List Char) : Document :=
  .ofChars d.language (d.source.take e.start ++
    (charsOf e.opening ++ renewed e.children new ++ e.closing.getD []) ++ d.source.drop e.stop)

/-- The document with another text of an element is read as the grammar says: the text ends at references, tags
and braces, and nothing else is read otherwise than before. -/
structure Retells (d : Document) (e : Element) (new : List Char) : Prop where
  element : (d.retell e new).elementAt? e.start = some (e.retold new)
  errors : (d.retell e new).hasError = !areSound (e.retold new).children

theorem mild_of_elementAt? {place : Nat} (found : d.elementAt? place = some e) :
    ∀ piece ∈ e.children, piece.Mild := by
  obtain ⟨_, _, spans⟩ := d.elementAt?_spans found
  have formed := spans.formed
  rw [Element.piece, Piece.Formed] at formed
  exact formed.2.2.1

/-- In front of the element nothing changes. -/
theorem positionAt_retell (found : d.elementAt? e.start = some e) (new : List Char) :
    Text.positionAt (d.retell e new).source e.start = Text.positionAt d.source e.start := by
  obtain ⟨before, behind, spans⟩ := d.elementAt?_spans found
  have begins : e.start = before.length := by rw [spans.begins, Nat.zero_add]
  have front : d.source.take e.start = before := by
    rw [begins, spans.whole, List.append_assoc, List.take_left]
  have same : (d.retell e new).source.take e.start = before := by
    rw [retell, ofChars, front, begins, List.append_assoc, List.take_left]
  unfold Text.positionAt
  rw [same, front]

/-- An element that is found at its own sign can be given another text. -/
theorem updateText_iff (found : d.elementAt? e.start = some e) :
    d.updateText d.source (Text.positionAt d.source e.start).line (Text.positionAt d.source e.start).column prior
        new = .ok updated ↔
      e.closing.isSome = true ∧ Unmarked new.toList ∧
        (Text.allBlank prior.toList = true ∨ shown e.children = Text.collapsedText prior) ∧
        (d.retell e new.toList).source = updated := by
  obtain ⟨before, behind, spans⟩ := d.elementAt?_spans found
  have begins : e.start = before.length := by rw [spans.begins, Nat.zero_add]
  have ends : e.stop = (before ++ e.chars).length := by
    rw [Element.stop, begins, List.length_append, e.length_chars]
  have within : e.start ≤ d.source.length := by
    rw [begins, spans.whole]
    simp
  have source : (d.retell e new.toList).source =
      before ++ (charsOf e.opening ++ renewed e.children new.toList ++ e.closing.getD []) ++ behind := by
    rw [retell, ofChars, begins, ends, spans.whole, List.drop_left, List.append_assoc before e.chars, List.take_left]
  rw [updateText_eq_ok, find_positionAt d within, found]
  simp only [Except.ok.injEq, Option.some.injEq, exists_eq_left', Element.replaceText_eq spans, source]
  constructor
  · rintro ⟨closed, unmarked, same, made⟩
    exact ⟨closed, unmarked, e.textContent_eq closed ▸ same, made⟩
  · rintro ⟨closed, unmarked, same, made⟩
    exact ⟨closed, unmarked, e.textContent_eq closed ▸ same, made⟩

/-- The edit of an element whose sign stands at a line and a column. -/
theorem updateText_sign {line column : Nat} (found : d.elementAt? e.start = some e)
    (place : Text.positionAt d.source e.start = ⟨line, column⟩) (closed : e.closing.isSome = true)
    (unmarked : Unmarked new.toList)
    (same : Text.allBlank prior.toList = true ∨ shown e.children = Text.collapsedText prior) :
    d.updateText d.source line column prior new = .ok (d.retell e new.toList).source := by
  have done := (updateText_iff found).mpr ⟨closed, unmarked, same, rfl⟩
  rwa [place] at done

end Document

end Retouch.Markup
