import Retouch.Proofs.Markup.Retold

/-!
# Texts that elements show

An element shows its first text that is not blank, with what belongs to it. When the text is replaced by another
one, this one is shown, as long as it does not begin with a reference: a reference in front of the first text is
passed over. Whether everything still has its place can be seen from the words of the new text.

## Main statements

* `refers_words`: whether the references of a text are complete can be seen from its words.
* `shown_retold`: what an element shows after its text was replaced.
* `areSound_retold`: whether everything has its place then.
-/
namespace Retouch.Markup

variable {cs xs ys front rest tail : List Char} {c : Char} {piece : Piece} {children pieces more : List Piece}

/-! ### Complete references -/

/-- Whether each sign of a reference begins a complete one. -/
def refers : List Char → Bool
  | [] => true
  | c :: rest => (c != '&' || (cutReference (c :: rest)).isSome) && refers rest

theorem refers_append (breaks : Breaks ys) (xs : List Char) : refers (xs ++ ys) = (refers xs && refers ys) := by
  induction xs with
  | nil => rfl
  | cons c xs ih =>
    have local_ := cutReference_append breaks (c :: xs)
    rw [List.cons_append] at local_ ⊢
    rw [refers, refers, ih, local_, Option.isSome_map, Bool.and_assoc]

theorem refers_of_not_mem (none : '&' ∉ xs) (ys : List Char) : refers (xs ++ ys) = refers ys := by
  induction xs with
  | nil => rfl
  | cons c xs ih =>
    rw [List.mem_cons, not_or] at none
    have other : (c != '&') = true := by simpa using fun same => none.1 same.symm
    rw [List.cons_append, refers, other, Bool.true_or, Bool.true_and, ih none.2]

/-- Whether the references of a text are complete can be seen from its words. -/
theorem refers_words (cs : List Char) : refers cs = (Text.words cs).all refers := by
  suffices all : ∀ word, refers (word.reverse ++ cs) = (Text.wordsFrom word cs).all refers from all []
  induction cs with
  | nil =>
    intro word
    rw [Text.wordsFrom]
    split
    · simp_all [refers]
    · simp
  | cons c cs ih =>
    intro word
    rw [Text.wordsFrom]
    by_cases blank : Text.isBlank c = true
    · have breaks : Breaks (c :: cs) := by
        intro d first
        cases first
        have plain := Text.of_blank (p := fun c => !isReferenceChar c) (by decide) blank
        simpa using plain
      have other : '&' ∉ [c] := fun same => breaks.other rfl (by decide) (List.mem_singleton.mp same).symm
      have behind : refers (c :: cs) = refers cs := refers_of_not_mem other cs
      rw [if_pos blank, refers_append breaks, behind]
      split
      · rename_i empty
        rw [List.isEmpty_iff.mp empty, ← ih]
        rfl
      · rw [List.all_cons, ← ih]
        rfl
    · rw [if_neg blank, ← ih, List.reverse_cons, List.append_assoc]
      rfl

/-- In a reference there is one sign, in front. -/
theorem tail_of_cutReference (cut : cutReference cs = some (front, rest)) :
    ∃ more, front = '&' :: more ∧ '&' ∉ more := by
  have plain {m : Nat} {holds : Char → Bool} {cs front rest : List Char}
      (cut : cutUpTo m holds cs = some (front, rest)) (other : holds '&' = false) : '&' ∉ front := by
    unfold cutUpTo at cut
    dsimp only at cut
    split at cut
    · split at cut
      · cases cut
      · cases cut
        intro member
        rcases List.mem_append.mp member with inside | last
        · rw [List.mem_takeWhile_imp inside] at other
          cases other
        · revert last
          decide
    · cases cut
  unfold cutReference at cut
  split at cut
  · rename_i x rest'
    split at cut
    · rename_i hex
      obtain ⟨⟨first, last⟩, found, parts⟩ := Option.map_eq_some_iff.mp cut
      obtain ⟨rfl, -⟩ := Prod.mk.inj parts
      refine ⟨_, rfl, ?_⟩
      have hex : x = 'x' ∨ x = 'X' := by simpa using hex
      have inner := plain found (by decide)
      rcases hex with rfl | rfl <;> simp [inner]
    · obtain ⟨⟨first, last⟩, found, parts⟩ := Option.map_eq_some_iff.mp cut
      obtain ⟨rfl, -⟩ := Prod.mk.inj parts
      exact ⟨_, rfl, by simp [plain found (by decide)]⟩
  · obtain ⟨⟨first, last⟩, found, parts⟩ := Option.map_eq_some_iff.mp cut
    obtain ⟨rfl, -⟩ := Prod.mk.inj parts
    exact ⟨_, rfl, plain found (by decide)⟩
  · cases cut

theorem refers_of_cut (cut : cutReference cs = some (front, rest)) : refers cs = refers rest := by
  obtain ⟨more, rfl, none⟩ := tail_of_cutReference cut
  have whole := cuts_reference _ _ _ cut
  rw [List.cons_append] at whole
  have found : (cutReference ('&' :: (more ++ rest))).isSome = true := by
    rw [whole, cut]
    rfl
  rw [← whole, refers, found, refers_of_not_mem none]
  simp

/-! ### Pieces of stretches -/

theorem areSound_eq_all (pieces : List Piece) : areSound pieces = pieces.all Piece.isSound := by
  induction pieces with
  | nil => rfl
  | cons piece rest ih => rw [areSound, List.all_cons, ih]

theorem areSound_append (xs ys : List Piece) : areSound (xs ++ ys) = (areSound xs && areSound ys) := by
  simp only [areSound_eq_all, List.all_append]

/-- The kinds of pieces that a stretch has. -/
theorem cutPiece_cases (cut : cutPiece cs = some (piece, rest)) :
    (∃ t, piece = .text t ∧ ∀ c ∈ t, endsText c = false) ∨ (∃ t, piece = .code t ∧ ∀ c ∈ t, Text.isBlank c = true) ∨
      (∃ t, piece = .reference t ∧ cutReference cs = some (t, rest)) ∨
      ∃ c, piece = .stray [c] ∧ cs = c :: rest ∧ endsText c = true ∧ (c = '&' → cutReference cs = none) := by
  unfold cutPiece at cut
  split at cut
  · cases cut
  · rename_i c cs
    split at cut
    · rename_i sign
      split at cut
      · rename_i reference
        cases cut
        exact .inr (.inr (.inl ⟨_, rfl, reference⟩))
      · rename_i missing
        cases cut
        exact .inr (.inr (.inr ⟨c, rfl, rfl, by simp [endsText, sign], fun _ => missing⟩))
    · rename_i other
      split at cut
      · rename_i ends
        cases cut
        exact .inr (.inr (.inr ⟨c, rfl, rfl, ends, fun sign => absurd sign other⟩))
      · dsimp only at cut
        cases cut
        split
        · exact .inl ⟨_, rfl, fun d member => by simpa using List.mem_takeWhile_imp member⟩
        · rename_i none
          exact .inr (.inl ⟨_, rfl, blank_of_isText (Bool.eq_false_iff.mpr none)⟩)

theorem mild_stretch (cs : List Char) : ∀ piece ∈ stretch cs, piece.Mild := by
  induction cs using stretch_induction with
  | empty => simp
  | step cs piece rest cut ih =>
    rw [stretch_of_cut cut]
    intro other member
    rcases List.mem_cons.mp member with rfl | later
    · rcases cutPiece_cases cut with ⟨t, rfl, mild⟩ | ⟨t, rfl, mild⟩ | ⟨t, rfl, found⟩ | ⟨c, rfl, -⟩
      · exact mild
      · exact mild
      · have again := cutReference_again found []
        rwa [List.append_nil] at again
      · trivial
    · exact ih other later

/-- Everything in a stretch has its place if its references are complete. -/
theorem areSound_stretch (unmarked : Unmarked cs) : areSound (stretch cs) = refers cs := by
  induction cs using stretch_induction with
  | empty => rfl
  | step cs piece rest cut ih =>
    have whole := charsOf_cutPiece cut
    have later : Unmarked rest := by
      rw [← whole, unmarked_append] at unmarked
      exact unmarked.2
    rw [stretch_of_cut cut, areSound, ih later]
    rcases cutPiece_cases cut with ⟨t, rfl, mild⟩ | ⟨t, rfl, blank⟩ | ⟨t, rfl, found⟩ | ⟨c, rfl, rfl, ends, missing⟩
    · rw [← whole, Piece.chars, refers_of_not_mem]
      · rfl
      · exact fun member => absurd (mild _ member) (by decide)
    · rw [← whole, Piece.chars, refers_of_not_mem]
      · rfl
      · exact fun member => absurd (blank _ member) (by decide)
    · rw [refers_of_cut found]
      rfl
    · -- The sign that fits nowhere is that of a reference.
      have mark := unmarked c List.mem_cons_self
      obtain rfl : c = '&' := by
        simp only [isMarkupMark, Bool.or_eq_false_iff, decide_eq_false_iff_not] at mark
        simpa [endsText, mark] using ends
      rw [refers, missing rfl]
      rfl

/-- A stretch in which everything has its place consists of texts, references and gaps. -/
theorem flat_of_areSound (sound : areSound (stretch cs) = true) : ∀ piece ∈ stretch cs, piece.isSolid = false := by
  induction cs using stretch_induction with
  | empty => simp
  | step cs piece rest cut ih =>
    rw [stretch_of_cut cut] at sound ⊢
    rw [areSound, Bool.and_eq_true] at sound
    intro other member
    rcases List.mem_cons.mp member with rfl | later
    · rcases cutPiece_cases cut with ⟨t, rfl, -⟩ | ⟨t, rfl, -⟩ | ⟨t, rfl, -⟩ | ⟨c, rfl, -⟩
      · rfl
      · rfl
      · rfl
      · cases sound.1
    · exact ih sound.2 other later

/-! ### Runs -/

/-- The text that the children of an element show. -/
def shown (children : List Piece) : String :=
  match textRun? children with
  | some (_, run) => String.ofList (Text.collapsed run)
  | none => ""

/-- A run of texts, references and gaps lacks some blanks at their end. -/
theorem runFrom_append {gap : List Char} (blank : ∀ c ∈ gap, Text.isBlank c = true)
    (mild : ∀ piece ∈ pieces, piece.Mild) (flat : ∀ piece ∈ pieces, piece.isSolid = false) :
    ∃ behind, (∀ c ∈ behind, Text.isBlank c = true) ∧ runFrom gap pieces ++ behind = gap ++ charsOf pieces := by
  have none : ∀ c ∈ ([] : List Char), Text.isBlank c = true := by simp
  induction pieces generalizing gap with
  | nil => exact ⟨gap, blank, by simp [runFrom]⟩
  | cons piece rest ih =>
    have mild' := fun other member => mild other (List.mem_cons_of_mem piece member)
    have flat' := fun other member => flat other (List.mem_cons_of_mem piece member)
    cases piece with
    | text t =>
      obtain ⟨behind, last, same⟩ := ih none mild' flat'
      exact ⟨behind, last, by simp [runFrom, Piece.chars, same]⟩
    | reference t =>
      obtain ⟨behind, last, same⟩ := ih none mild' flat'
      exact ⟨behind, last, by simp [runFrom, Piece.chars, same]⟩
    | code t =>
      have inside : ∀ c ∈ gap ++ t, Text.isBlank c = true := by
        intro c member
        exact (List.mem_append.mp member).elim (blank c) (mild (.code t) List.mem_cons_self c)
      obtain ⟨behind, last, same⟩ := ih inside mild' flat'
      exact ⟨behind, last, by simp [runFrom, Piece.chars, same]⟩
    | stray | braces | element => cases flat _ List.mem_cons_self

/-- The first stretch of children whose first text begins the run, with what the run lacks of it. -/
theorem run_of_textRun? (mild : ∀ piece ∈ children, piece.Mild) {run : List Char}
    (found : textRun? children = some (front, run)) :
    ∃ pieces behind, (∀ piece ∈ pieces, piece ∈ children ∧ piece.isSolid = false) ∧
      (∀ c ∈ behind, Text.isBlank c = true) ∧ run ++ behind = charsOf pieces := by
  rw [textRun?_eq] at found
  cases begins : children.dropWhile fun piece => !piece.beginsRun with
  | nil =>
    rw [begins] at found
    cases found
  | cons first rest =>
    rw [begins] at found
    cases found
    have inside : ∀ piece ∈ (first :: rest).takeWhile (fun piece => !piece.isSolid),
        piece ∈ children ∧ piece.isSolid = false := by
      intro piece member
      refine ⟨?_, by simpa using List.mem_takeWhile_imp member⟩
      have there := (List.takeWhile_prefix _).subset member
      rw [← begins] at there
      exact (List.dropWhile_suffix _).subset there
    have mild' := fun piece member => mild piece (inside piece member).1
    have flat := fun piece member => (inside piece member).2
    have none : ∀ c ∈ ([] : List Char), Text.isBlank c = true := by simp
    obtain ⟨behind, blank, same⟩ := runFrom_append none mild' flat
    rw [runFrom_flat] at same
    exact ⟨_, behind, inside, blank, by simpa using same⟩

theorem refers_of_mild (mild : ∀ piece ∈ pieces, piece.Mild) (flat : ∀ piece ∈ pieces, piece.isSolid = false) :
    refers (charsOf pieces) = true := by
  induction pieces with
  | nil => rfl
  | cons piece rest ih =>
    have later := ih (fun other member => mild other (List.mem_cons_of_mem piece member))
      fun other member => flat other (List.mem_cons_of_mem piece member)
    have first := mild piece List.mem_cons_self
    rw [charsOf_cons]
    cases piece with
    | text t => rwa [Piece.chars, refers_of_not_mem fun member => absurd (first _ member) (by decide)]
    | reference t => rwa [Piece.chars, refers_of_cut (cutReference_again first _)]
    | code t => rwa [Piece.chars, refers_of_not_mem fun member => absurd (first _ member) (by decide)]
    | stray | braces | element => cases flat _ List.mem_cons_self

theorem unmarked_of_mild (mild : ∀ piece ∈ pieces, piece.Mild) (flat : ∀ piece ∈ pieces, piece.isSolid = false) :
    Unmarked (charsOf pieces) := by
  induction pieces with
  | nil => simp [Unmarked]
  | cons piece rest ih =>
    rw [charsOf_cons, unmarked_append]
    exact ⟨(mild piece List.mem_cons_self).unmarked (flat piece List.mem_cons_self),
      ih (fun other member => mild other (List.mem_cons_of_mem piece member))
        fun other member => flat other (List.mem_cons_of_mem piece member)⟩

/-! ### Texts that are replaced -/

theorem blank_of_trailing (cs : List Char) : ∀ c ∈ trailing cs, Text.isBlank c = true := by
  obtain ⟨gap, blank, whole⟩ := Text.trimEnd_split cs
  have same := congrArg (List.drop (Text.trimEnd cs).length) whole
  rw [List.drop_left] at same
  rwa [trailing, same]

/-- New children: those in front of the run, the new text between blanks as a stretch, and the children from the
next one on that is no text. -/
structure Renews (children : List Piece) (new : List Char) (start : List Piece) (before behind : List Char)
    (final : List Piece) : Prop where
  whole : retold children new = start ++ stretch (before ++ new ++ behind) ++ final
  starts : ∀ piece ∈ start, piece ∈ children ∧ piece.beginsRun = false
  opens : ∀ c ∈ before, Text.isBlank c = true
  closes : ∀ c ∈ behind, Text.isBlank c = true
  finals : ∀ piece ∈ final, piece ∈ children
  next : ∀ piece, final.head? = some piece → piece.isSolid = true

theorem renews_of_textRun? (mild : ∀ piece ∈ children, piece.Mild) {run : List Char}
    (found : textRun? children = some (front, run)) (new : List Char) :
    ∃ start before behind final, Renews children new start before behind final := by
  rw [textRun?_eq] at found
  cases begins : children.dropWhile fun piece => !piece.beginsRun with
  | nil =>
    rw [begins] at found
    cases found
  | cons first rest =>
    rw [begins] at found
    cases found
    have there : ∀ piece ∈ first :: rest, piece ∈ children := by
      intro piece member
      rw [← begins] at member
      exact (List.dropWhile_suffix _).subset member
    have flat : ∀ piece ∈ (first :: rest).takeWhile (fun piece => !piece.isSolid), piece.isSolid = false := by
      intro piece member
      simpa using List.mem_takeWhile_imp member
    have mild' : ∀ piece ∈ (first :: rest).takeWhile (fun piece => !piece.isSolid), piece.Mild :=
      fun piece member => mild piece (there piece ((List.takeWhile_prefix _).subset member))
    have none : ∀ c ∈ ([] : List Char), Text.isBlank c = true := by simp
    -- What the run lacks of its stretch is blank.
    obtain ⟨gap, blank, same⟩ := runFrom_append none mild' flat
    rw [runFrom_flat, List.nil_append] at same
    refine ⟨children.takeWhile fun piece => !piece.beginsRun, (runFrom [] (first :: rest)).takeWhile Text.isBlank,
      trailing (runFrom [] (first :: rest)) ++ gap, (first :: rest).dropWhile fun piece => !piece.isSolid,
      ?_, ?_, ?_, ?_, ?_, ?_⟩
    · unfold retold
      rw [begins]
      dsimp only
      rw [← same, List.drop_left]
      simp only [List.append_assoc]
    · intro piece member
      refine ⟨(List.takeWhile_prefix _).subset member, ?_⟩
      simpa using List.mem_takeWhile_imp member
    · exact fun c member => List.mem_takeWhile_imp member
    · exact fun c member => (List.mem_append.mp member).elim (blank_of_trailing _ c) (blank c)
    · exact fun piece member => there piece ((List.dropWhile_suffix _).subset member)
    · intro piece head
      have ends := List.head?_dropWhile_not (fun piece : Piece => !piece.isSolid) (first :: rest)
      rw [head] at ends
      simpa using ends

theorem unmarked_renewed {before new behind : List Char} (opens : ∀ c ∈ before, Text.isBlank c = true)
    (unmarked : Unmarked new) (closes : ∀ c ∈ behind, Text.isBlank c = true) :
    Unmarked (before ++ new ++ behind) :=
  unmarked_append.mpr ⟨unmarked_append.mpr ⟨unmarked_of_blank opens, unmarked⟩, unmarked_of_blank closes⟩

/-- The first word of a text is there, and it does not begin with the sign of a reference. -/
def Worded (cs : List Char) : Prop := ∃ c, (cs.dropWhile Text.isBlank).head? = some c ∧ c ≠ '&'

/-- A stretch of text that begins with a word begins with a text, which an element shows. -/
theorem stretch_of_worded (worded : Worded cs) (unmarked : Unmarked cs) :
    ∃ piece rest, stretch cs = piece :: rest ∧ piece.beginsRun = true := by
  obtain ⟨c, first, other⟩ := worded
  obtain ⟨more, behind⟩ : ∃ more, cs.dropWhile Text.isBlank = c :: more := by
    cases tail : cs.dropWhile Text.isBlank with
    | nil => simp [tail] at first
    | cons d more => exact ⟨more, by simpa [tail] using first⟩
  have solid : Text.isBlank c = false := Text.head?_dropWhile cs c first
  obtain ⟨gap, blank, whole⟩ := Text.dropWhile_split cs
  rw [behind] at whole
  subst whole
  -- Neither the blanks nor the first character of the word end a text.
  have text : ∀ d ∈ gap ++ [c], (!endsText d) = true := by
    intro d member
    rcases List.mem_append.mp member with inside | last
    · exact Text.of_blank (p := fun c => !endsText c) (by decide) (blank d inside)
    · obtain rfl := List.mem_singleton.mp last
      have mark := unmarked d (by simp)
      simp only [isMarkupMark, Bool.or_eq_false_iff, decide_eq_false_iff_not] at mark
      simp [endsText, mark, other]
  have run : (gap ++ c :: more).takeWhile (fun d => !endsText d) =
      gap ++ [c] ++ more.takeWhile fun d => !endsText d := by
    rw [← List.takeWhile_append_of_pos text, List.append_assoc, List.singleton_append]
  have cut : cutPiece (gap ++ c :: more) =
      some (.text ((gap ++ c :: more).takeWhile fun d => !endsText d),
        (gap ++ c :: more).dropWhile fun d => !endsText d) := by
    have isText : isText false ((gap ++ c :: more).takeWhile fun d => !endsText d) = true := by
      refine Bool.not_eq_false _ |>.mp fun none => ?_
      have blank' := blank_of_isText none c (by simp [run])
      rw [solid] at blank'
      cases blank'
    obtain ⟨d, rest, begins⟩ := List.exists_cons_of_ne_nil (show gap ++ c :: more ≠ [] by simp)
    have inside : d ∈ gap ++ [c] := by
      cases gap with
      | nil => simp_all
      | cons e gap => simp_all
    rw [begins] at isText ⊢
    rw [cutPiece_of_text (by simpa using text d inside), if_pos isText]
  refine ⟨_, _, stretch_of_cut cut, ?_⟩
  have shows : Text.isPlainBlank c = false := by
    refine Bool.eq_false_iff.mpr fun plain => ?_
    rw [Text.blank_of_plainBlank plain] at solid
    cases solid
  rw [Piece.beginsRun, run]
  simp [shows]

/-- Behind children that begin no run, a stretch that begins with a word is shown. -/
theorem textRun?_stretch {start final : List Piece} (starts : ∀ piece ∈ start, piece.beginsRun = false)
    (worded : Worded cs) (unmarked : Unmarked cs) (sound : areSound (stretch cs) = true)
    (next : ∀ piece, final.head? = some piece → piece.isSolid = true) :
    ∃ run, textRun? (start ++ stretch cs ++ final) = some (charsOf start, run) ∧ Text.words run = Text.words cs := by
  obtain ⟨piece, rest, same, begins⟩ := stretch_of_worded worded unmarked
  have flat := flat_of_areSound sound
  have passes : ∀ piece ∈ start, (!piece.beginsRun) = true := fun piece member => by simp [starts piece member]
  have stops : (final.takeWhile fun piece => !piece.isSolid) = [] := by
    cases final with
    | nil => rfl
    | cons piece final => exact List.takeWhile_cons_of_neg (by simp [next piece rfl])
  have inside : ((stretch cs ++ final).takeWhile fun piece => !piece.isSolid) = stretch cs := by
    rw [List.takeWhile_append_of_pos fun piece member => by simp [flat piece member], stops, List.append_nil]
  -- The run begins with the stretch, and ends with it but for some blanks.
  have run : textRun? (start ++ stretch cs ++ final) = some (charsOf start, runFrom [] (stretch cs)) := by
    rw [List.append_assoc, textRun?_eq, List.dropWhile_append_of_pos passes, List.takeWhile_append_of_pos passes, same,
      List.cons_append, List.dropWhile_cons_of_neg (by simp [begins]), List.takeWhile_cons_of_neg (by simp [begins])]
    dsimp only
    rw [List.append_nil, ← List.cons_append, ← same, ← runFrom_flat, inside]
  have none : ∀ c ∈ ([] : List Char), Text.isBlank c = true := by simp
  obtain ⟨gap, blank, same'⟩ := runFrom_append none (mild_stretch cs) flat
  rw [charsOf_stretch, List.nil_append] at same'
  refine ⟨_, run, ?_⟩
  rw [← Text.words_append_blanks blank, same']

theorem worded_append {before : List Char} (blank : ∀ c ∈ before, Text.isBlank c = true) (worded : Worded cs)
    (behind : List Char) : Worded (before ++ cs ++ behind) := by
  obtain ⟨c, first, other⟩ := worded
  refine ⟨c, ?_, other⟩
  rw [List.append_assoc, Text.dropWhile_blanks blank, List.dropWhile_append]
  split
  · rename_i empty
    rw [List.isEmpty_iff.mp empty] at first
    cases first
  · rw [List.head?_append, first]
    rfl

/-- After the text of an element was replaced by one that begins with a word, this one is shown. -/
theorem shown_retold (mild : ∀ piece ∈ children, piece.Mild) {run new : List Char}
    (found : textRun? children = some (front, run)) (unmarked : Unmarked new) (worded : Worded new)
    (sound : areSound (retold children new) = true) :
    ∃ front' run', textRun? (retold children new) = some (front', run') ∧ Text.words run' = Text.words new := by
  obtain ⟨start, before, behind, final, whole, starts, opens, closes, -, next⟩ := renews_of_textRun? mild found new
  have sound' : areSound (stretch (before ++ new ++ behind)) = true := by
    rw [whole, areSound_append, areSound_append, Bool.and_eq_true, Bool.and_eq_true] at sound
    exact sound.1.2
  obtain ⟨run', run, words⟩ := textRun?_stretch (fun piece member => (starts piece member).2)
    (worded_append opens worded behind) (unmarked_renewed opens unmarked closes) sound' next
  refine ⟨_, run', whole ▸ run, ?_⟩
  rw [words, Text.words_append_blanks closes, Text.words_blanks opens]

theorem mild_retold (mild : ∀ piece ∈ children, piece.Mild) {run : List Char}
    (found : textRun? children = some (front, run)) (new : List Char) : ∀ piece ∈ retold children new, piece.Mild := by
  obtain ⟨start, before, behind, final, whole, starts, -, -, finals, -⟩ := renews_of_textRun? mild found new
  rw [whole]
  intro piece member
  rcases List.mem_append.mp member with front | last
  · rcases List.mem_append.mp front with first | middle
    · exact mild piece (starts piece first).1
    · exact mild_stretch _ piece middle
  · exact mild piece (finals piece last)

/-- Whether everything has its place after the text of an element was replaced, can be seen from the words of the
new text. -/
theorem areSound_retold (sound : areSound children = true) (mild : ∀ piece ∈ children, piece.Mild)
    {run new : List Char} (found : textRun? children = some (front, run)) (unmarked : Unmarked new) :
    areSound (retold children new) = (Text.words new).all refers := by
  obtain ⟨start, before, behind, final, whole, starts, opens, closes, finals, -⟩ := renews_of_textRun? mild found new
  have parts : ∀ pieces : List Piece, (∀ piece ∈ pieces, piece ∈ children) → areSound pieces = true := by
    intro pieces inside
    rw [areSound_eq_all, List.all_eq_true] at sound ⊢
    exact fun piece member => sound piece (inside piece member)
  rw [whole, areSound_append, areSound_append, parts start fun piece member => (starts piece member).1,
    parts final finals, areSound_stretch (unmarked_renewed opens unmarked closes), refers_words,
    Text.words_append_blanks closes, Text.words_blanks opens]
  simp

end Retouch.Markup
