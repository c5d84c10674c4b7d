import Retouch.Proofs.Markup.Opposite

/-!
# What an edit of a text removes

The run of an element is a row of its children: texts and references, and the gaps between them. An edit removes
this row, or all children of an element that has no run and nothing else than text, or nothing at all; what it puts
there is the new text between blanks that it has removed. So no tag, no element and no expression is touched.

## Main statements

* `textRun?_cut`: the children that a run consists of.
* `renewed_removes`: the children that are removed.
* `Document.updateText_removes`: what a successful edit has checked, and what it has removed.
-/
namespace Retouch.Markup

variable {gap front run new : List Char} {children pieces cut : List Piece} {piece : Piece} {e : Element}

/-- A text or a reference. -/
def Piece.isTextual : Piece → Bool
  | .text _ | .reference _ => true
  | _ => false

/-- Texts and references, and blanks between children. -/
def AreTextual (pieces : List Piece) : Prop :=
  ∀ piece ∈ pieces, piece.isTextual = true ∨ ∃ gap, piece = .code gap ∧ ∀ c ∈ gap, Text.isBlank c = true

/-- All blanks stand between texts and references: they are neither first nor last. -/
def Enclosed (pieces : List Piece) : Prop :=
  ∀ piece, pieces.head? = some piece ∨ pieces.getLast? = some piece → piece.isTextual = true

theorem areTextual_of_mild (mild : ∀ piece ∈ pieces, piece.Mild) (flat : ∀ piece ∈ pieces, piece.isSolid = false) :
    AreTextual pieces := by
  intro piece member
  have inside := mild piece member
  cases piece with
  | text | reference => exact .inl rfl
  | code gap => exact .inr ⟨gap, rfl, inside⟩
  | stray | braces | element => cases flat _ member

/-! ### Runs -/

theorem getLast?_cons_of_last (last : cut.getLast? = some piece) (first : Piece) :
    (first :: cut).getLast? = some piece := by
  rw [List.getLast?_cons, last]
  rfl

/-- A text or a reference in front of a row that ends with one, or of none. -/
theorem last_of_textual (textual : piece.isTextual = true)
    (last : cut = [] ∨ ∃ final, cut.getLast? = some final ∧ final.isTextual = true) :
    ∃ final, (piece :: cut).getLast? = some final ∧ final.isTextual = true := by
  rcases last with rfl | ⟨final, last, there⟩
  · exact ⟨piece, rfl, textual⟩
  · exact ⟨final, getLast?_cons_of_last last piece, there⟩

/-- What follows on a text or a reference is the row itself, for no gap is added to it. -/
theorem chars_of_ends {last : Prop} {run : List Char} (ends : (cut = [] ∧ run = []) ∨ last ∧ run = [] ++ charsOf cut) :
    run = charsOf cut := by
  rcases ends with ⟨rfl, none⟩ | ⟨-, whole⟩
  · exact none
  · exact whole

/-- What belongs to a run is a row of the pieces, which ends with a text or a reference; when no piece belongs to
it, the gap does not either. -/
theorem runFrom_cut (gap : List Char) (pieces : List Piece) :
    ∃ cut back, pieces = cut ++ back ∧ (∀ piece ∈ cut, piece.isSolid = false) ∧
      ((cut = [] ∧ runFrom gap pieces = []) ∨
        (∃ final, cut.getLast? = some final ∧ final.isTextual = true) ∧ runFrom gap pieces = gap ++ charsOf cut) := by
  fun_induction runFrom gap pieces with
  | case1 gap t rest ih =>
    obtain ⟨cut, back, rfl, flat, ends⟩ := ih
    refine ⟨.text t :: cut, back, rfl, List.forall_mem_cons.mpr ⟨rfl, flat⟩, .inr ⟨last_of_textual rfl ?_, ?_⟩⟩
    · exact ends.imp And.left And.left
    · simp [Piece.chars, chars_of_ends ends]
  | case2 gap t rest ih =>
    obtain ⟨cut, back, rfl, flat, ends⟩ := ih
    refine ⟨.reference t :: cut, back, rfl, List.forall_mem_cons.mpr ⟨rfl, flat⟩, .inr ⟨last_of_textual rfl ?_, ?_⟩⟩
    · exact ends.imp And.left And.left
    · simp [Piece.chars, chars_of_ends ends]
  | case3 gap t rest ih =>
    obtain ⟨cut, back, rfl, flat, ends⟩ := ih
    -- A gap belongs to the run only if a text or a reference follows.
    rcases ends with ⟨rfl, none⟩ | ⟨⟨final, last, textual⟩, whole⟩
    · exact ⟨[], .code t :: back, rfl, by simp, .inl ⟨rfl, none⟩⟩
    · refine ⟨.code t :: cut, back, rfl, List.forall_mem_cons.mpr ⟨rfl, flat⟩,
        .inr ⟨⟨final, getLast?_cons_of_last last _, textual⟩, ?_⟩⟩
      simp [whole, Piece.chars]
  | case4 pieces gap => exact ⟨[], pieces, rfl, by simp, .inl ⟨rfl, rfl⟩⟩

/-- The run of an element is a row of its children, from a text to a text or a reference. -/
theorem textRun?_cut (found : textRun? children = some (front, run)) :
    ∃ fore cut back, children = fore ++ cut ++ back ∧ charsOf fore = front ∧ charsOf cut = run ∧
      (∀ piece ∈ cut, piece.isSolid = false) ∧ Enclosed cut := by
  rw [textRun?_eq] at found
  cases begins : children.dropWhile fun piece => !piece.beginsRun with
  | nil =>
    rw [begins] at found
    cases found
  | cons first rest =>
    rw [begins] at found
    cases found
    have whole := List.takeWhile_append_dropWhile (p := fun piece : Piece => !piece.beginsRun) (l := children)
    have opens : first.beginsRun = true := by
      have head := List.head?_dropWhile_not (fun piece : Piece => !piece.beginsRun) children
      rw [begins] at head
      simpa using head
    obtain ⟨t, rfl⟩ : ∃ t, first = .text t := by
      cases first with
      | text t => exact ⟨t, rfl⟩
      | code | stray | reference | braces | element => cases opens
    obtain ⟨cut, back, rest_, flat, ends⟩ := runFrom_cut [] rest
    have last := last_of_textual (show (Piece.text t).isTextual = true from rfl) (ends.imp And.left And.left)
    have same : runFrom [] (.text t :: rest) = charsOf (.text t :: cut) := by
      simp [runFrom, Piece.chars, chars_of_ends ends]
    refine ⟨_, .text t :: cut, back, ?_, rfl, same.symm, List.forall_mem_cons.mpr ⟨rfl, flat⟩, ?_⟩
    · rw [List.append_assoc, List.cons_append, ← rest_, ← begins, whole]
    · obtain ⟨final, there, textual⟩ := last
      rintro piece (head | tail)
      · cases head
        rfl
      · rw [there] at tail
        cases tail
        exact textual

/-! ### Children that are removed -/

/-- Some children of an element that stand in a row, texts, references and gaps, are removed, all but some blanks with
which they begin and end. -/
structure Removes (children fore cut back : List Piece) (leading trailing : List Char) : Prop where
  whole : children = fore ++ cut ++ back
  textual : AreTextual cut
  leads : leading <+: charsOf cut
  trails : trailing <:+ charsOf cut
  blank : ∀ c ∈ leading ++ trailing, Text.isBlank c = true

/-- The new text replaces the run of an element; without one it replaces all children that are no more than texts,
references and gaps, and otherwise nothing. -/
theorem renewed_removes (mild : ∀ piece ∈ children, piece.Mild) (new : List Char) :
    ∃ fore cut back leading trailing, Removes children fore cut back leading trailing ∧
      renewed children new = charsOf fore ++ (leading ++ new ++ trailing) ++ charsOf back ∧
      (Enclosed cut ∨ textRun? children = none ∧ cut = children) := by
  cases found : textRun? children with
  | some parts =>
    obtain ⟨front, run⟩ := parts
    obtain ⟨fore, cut, back, whole, rfl, rfl, flat, enclosed⟩ := textRun?_cut found
    have mild' : ∀ piece ∈ cut, piece.Mild := fun piece member => mild piece (by rw [whole]; simp [member])
    refine ⟨fore, cut, back, (charsOf cut).takeWhile Text.isBlank, trailing (charsOf cut),
      ⟨whole, areTextual_of_mild mild' flat, List.takeWhile_prefix _, List.drop_suffix _ _, ?_⟩, ?_, .inl enclosed⟩
    · intro c member
      exact (List.mem_append.mp member).elim List.mem_takeWhile_imp (blank_of_trailing _ c)
    · rw [renewed, found]
      dsimp only
      rw [whole, charsOf_append, charsOf_append, List.drop_left]
  | none =>
    by_cases solid : children.any Piece.isSolid = true
    · refine ⟨[], [], children, [], [], ⟨rfl, by simp [AreTextual], by simp, by simp, by simp⟩, ?_, .inl ?_⟩
      · rw [renewed, found]
        dsimp only
        rw [if_pos solid]
        simp
      · rintro piece (head | last)
        · cases head
        · cases last
    · have flat : ∀ piece ∈ children, piece.isSolid = false := by simpa using solid
      refine ⟨[], children, [], [], [], ⟨by simp, areTextual_of_mild mild flat, by simp, by simp, by simp⟩, ?_,
        .inr ⟨rfl, rfl⟩⟩
      rw [renewed, found]
      dsimp only
      rw [if_neg solid]
      simp

/-! ### Edits of sources -/

/-- A text stands in the place of some characters between the tags of an element, and the source is the same in
front of them and behind. -/
def Element.Splices (e : Element) (source result fore removed inserted back : List Char) : Prop :=
  ∃ before behind tag, e.closing = some tag ∧ e.start = before.length ∧
    source = before ++ charsOf e.opening ++ fore ++ removed ++ back ++ tag ++ behind ∧
    result = before ++ charsOf e.opening ++ fore ++ inserted ++ back ++ tag ++ behind

namespace Document

variable {d : Document} {line column : Int} {prior new : String} {result : List Char}

/-- An edit that succeeds has found the text it was told, unless it was told none, and removes nothing but text of
the element: texts and references with the blanks between them, or all between the tags of an element that has no
run and holds nothing but texts, references and blanks. -/
theorem updateText_removes (done : d.updateText d.source line column prior new = .ok result) :
    ∃ e fore cut back leading trailing, d.find d.source line column = .ok (some e) ∧
      (Text.allBlank prior.toList = false → e.textContent = Text.collapsedText prior) ∧
      Removes e.children fore cut back leading trailing ∧
      e.Splices d.source result (charsOf fore) (charsOf cut) (leading ++ new.toList ++ trailing) (charsOf back) ∧
      (Enclosed cut ∨ textRun? e.children = none ∧ cut = e.children) := by
  obtain ⟨e, found, closed, -, same, made⟩ := updateText_eq_ok.mp done
  obtain ⟨place, there⟩ := elementAt?_of_find found
  obtain ⟨before, behind, spans⟩ := d.elementAt?_spans there
  obtain ⟨tag, closes⟩ := Option.isSome_iff_exists.mp closed
  have mild : ∀ piece ∈ e.children, piece.Mild := by
    have formed := spans.formed
    rw [Element.piece, Piece.Formed] at formed
    exact formed.2.2.1
  obtain ⟨fore, cut, back, leading, trailing, removes, made', gaps⟩ := renewed_removes mild new.toList
  refine ⟨e, fore, cut, back, leading, trailing, found, ?_, removes, ⟨before, behind, tag, closes, ?_, ?_, ?_⟩, gaps⟩
  · exact fun filled => same.resolve_left (by simp [filled])
  · rw [spans.begins, Nat.zero_add]
  · rw [spans.whole, Element.chars, closes, removes.whole]
    simp [charsOf_append]
  · rw [Element.replaceText_eq spans, closes, made'] at made
    rw [← Except.ok.inj made]
    simp

end Document

/-- A paragraph with a word between blanks and an element. -/
def wordDocument : Document := .ofChars .tsx "<p> a \n<b/></p>".toList

def wordElement : Element :=
  ⟨0, ['p'], [.code "<p>".toList], [.text " a \n".toList, .element ['b'] [.code "<b/>".toList] [] none],
    some "</p>".toList⟩

/-- A word that is replaced. -/
theorem Document.updateText_removes_word :
    wordDocument.updateText wordDocument.source 1 1 "a" "é" = .ok "<p> é \n<b/></p>".toList ∧
    ∃ e fore cut back leading trailing, wordDocument.find wordDocument.source 1 1 = .ok (some e) ∧
      (Text.allBlank "a".toList = false → e.textContent = Text.collapsedText "a") ∧
      Removes e.children fore cut back leading trailing ∧
      e.Splices wordDocument.source "<p> é \n<b/></p>".toList (charsOf fore) (charsOf cut)
        (leading ++ "é".toList ++ trailing) (charsOf back) ∧
      (Enclosed cut ∨ textRun? e.children = none ∧ cut = e.children) := by
  have found : wordDocument.elementAt? wordElement.start = some wordElement := by decide +kernel
  have same : shown wordElement.children = Text.collapsedText "a" := by decide +kernel
  have place : Text.positionAt wordDocument.source wordElement.start = ⟨1, 1⟩ := by decide +kernel
  have unmarked : Unmarked "é".toList := unmarked_of_all (by decide)
  have done := wordDocument.updateText_sign found place rfl unmarked (.inr same)
  have made : (wordDocument.retell wordElement "é".toList).source = "<p> é \n<b/></p>".toList := by decide +kernel
  rw [made] at done
  exact ⟨done, wordDocument.updateText_removes done⟩

/-- A paragraph with a line feed between its tags. -/
def feedDocument : Document := .ofChars .tsx "<p>\n</p>".toList

def feedElement : Element := ⟨0, ['p'], [.code "<p>".toList], [.code ['\n']], some "</p>".toList⟩

/-- The blanks between the tags of an element that holds nothing else are removed, which do not stand between
texts or references. -/
theorem Document.updateText_removes_feed :
    feedDocument.updateText feedDocument.source 1 1 "" "x" = .ok "<p>x</p>".toList ∧
    ¬∃ e fore cut back leading trailing, feedDocument.find feedDocument.source 1 1 = .ok (some e) ∧
      Removes e.children fore cut back leading trailing ∧
      e.Splices feedDocument.source "<p>x</p>".toList (charsOf fore) (charsOf cut)
        (leading ++ "x".toList ++ trailing) (charsOf back) ∧ Enclosed cut := by
  have found : feedDocument.elementAt? feedElement.start = some feedElement := by decide +kernel
  have place : Text.positionAt feedDocument.source feedElement.start = ⟨1, 1⟩ := by decide +kernel
  have blank : Text.allBlank "".toList = true := by decide +kernel
  have unmarked : Unmarked "x".toList := unmarked_of_all (by decide)
  have done := feedDocument.updateText_sign found place rfl unmarked (.inl blank)
  have made : (feedDocument.retell feedElement "x".toList).source = "<p>x</p>".toList := by decide +kernel
  have there := feedDocument.find_positionAt (show feedElement.start ≤ _ by decide +kernel)
  rw [made] at done
  rw [place, found] at there
  refine ⟨done, ?_⟩
  rintro ⟨e, fore, cut, back, leading, trailing, same, removes, splices, enclosed⟩
  obtain rfl : feedElement = e := Option.some.inj (Except.ok.inj (there.symm.trans same))
  have whole : [.code ['\n']] = fore ++ cut ++ back := removes.whole
  -- No text and no reference is there to begin with, so that the line feed stays in front or behind.
  obtain rfl : cut = [] := by
    cases cut with
    | nil => rfl
    | cons first rest =>
      have member : first ∈ [Piece.code ['\n']] := by rw [whole]; simp
      obtain rfl := List.mem_singleton.mp member
      exact absurd (enclosed _ (.inl rfl)) (by decide)
  have feed : '\n' ∈ charsOf fore ++ charsOf back := by
    rw [← charsOf_append, show fore ++ back = [.code ['\n']] by simpa using whole.symm]
    decide
  obtain ⟨before, behind, tag, -, -, -, result⟩ := splices
  have stays : '\n' ∈ "<p>x</p>".toList := by
    rw [result]
    rcases List.mem_append.mp feed with front | last
    · simp [front]
    · simp [last]
  revert stays
  decide

end Retouch.Markup
