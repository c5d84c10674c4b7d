import Mathlib.Data.List.TakeWhile
import Retouch.Markup.Document
import Retouch.Proofs.Markup.Reading
import Retouch.Proofs.Text.Utf8
import Retouch.Text.LineBreak

/-!
# Where the elements of a source stand

The line and the column that an offset is told by lead back to it: as many lines come before as there are line
feeds in front of the offset, and the characters behind the last of these begin the line.

An element that is found in a document stands in its source, from the offset where it begins on, and the text
that replaces its own one is put between its tags. So an edit of its text leaves all in front of the element and
all behind it.

## Main statements

* `lines_around`: the lines in front of an offset, and the one that it is in.
* `Document.find_positionAt`: what is found at the line and the column of an offset.
* `Document.elementAt?_spans`: the source around an element that was found.
* `Element.replaceText_eq`: the source after an edit of the text of an element.
-/
namespace Retouch.Markup

/-! ### Lines and columns -/

variable {offset : Nat}

theorem linesOf_feed (cs : List Char) : linesOf ('\n' :: cs) = [] :: linesOf cs := by
  rw [linesOf, List.splitOn_cons_eq_if_modifyHead]
  rfl

theorem linesOf_cons {c : Char} (other : c ≠ '\n') (cs : List Char) :
    ∃ line rest, linesOf cs = line :: rest ∧ linesOf (c :: cs) = (c :: line) :: rest := by
  obtain ⟨line, rest, lines⟩ := List.exists_cons_of_ne_nil (List.splitOn_ne_nil '\n' cs)
  refine ⟨line, rest, lines, ?_⟩
  rw [linesOf, List.splitOn_cons_eq_if_modifyHead, lines]
  simp [other]

/-- The number of characters behind the last line feed. -/
def lastLength (cs : List Char) : Nat := (cs.reverse.takeWhile (· ≠ '\n')).length

theorem lastLength_cons (c : Char) (cs : List Char) :
    lastLength (c :: cs) = if c = '\n' ∨ '\n' ∈ cs then lastLength cs else cs.length + 1 := by
  unfold lastLength
  rw [List.reverse_cons]
  by_cases more : '\n' ∈ cs
  · rw [if_pos (.inr more), List.takeWhile_append, if_neg]
    intro whole
    have all := List.takeWhile_eq_self_iff.mp ((List.takeWhile_prefix _).eq_of_length whole)
    simpa using all '\n' (List.mem_reverse.mpr more)
  · have plain : ∀ d ∈ cs.reverse, decide (d ≠ '\n') = true := by
      intro d member
      have : d ≠ '\n' := fun same => more (same ▸ List.mem_reverse.mp member)
      simpa using this
    rw [List.takeWhile_append_of_pos plain, List.takeWhile_eq_self_iff.mpr plain]
    by_cases feed : c = '\n' <;> simp [feed, more]

/-- The number of characters in lines that all end. -/
def lengthOf : List (List Char) → Nat
  | [] => 0
  | line :: rest => line.length + 1 + lengthOf rest

theorem offsetAt_eq (cs : List Char) (row characters : Nat) :
    offsetAt cs row characters =
      lengthOf ((linesOf cs).take row) + min characters ((linesOf cs).getD row []).length := by
  have folded (lines : List (List Char)) (n : Nat) :
      lines.foldl (fun count line => count + (line.length + 1)) n = n + lengthOf lines := by
    induction lines generalizing n with
    | nil => rfl
    | cons line rest ih => simp [lengthOf, ih, Nat.add_assoc]
  unfold offsetAt
  dsimp only
  rw [folded, Nat.zero_add]

/-- The lines around an offset: as many come before as there are line feeds, and the characters behind the last
of them begin the line of the offset. -/
theorem lines_around (before behind : List Char) :
    ∃ line, (linesOf (before ++ behind))[before.count '\n']? = some line ∧
      lastLength before ≤ line.length ∧
      lengthOf ((linesOf (before ++ behind)).take (before.count '\n')) + lastLength before = before.length := by
  induction before with
  | nil =>
    obtain ⟨line, rest, lines⟩ := List.exists_cons_of_ne_nil (List.splitOn_ne_nil '\n' behind)
    exact ⟨line, by simp [linesOf, lines], Nat.zero_le _, rfl⟩
  | cons c before ih =>
    obtain ⟨line, there, within, sizes⟩ := ih
    rw [lastLength_cons]
    by_cases feed : c = '\n'
    · subst feed
      refine ⟨line, ?_, ?_, ?_⟩
      · rw [List.cons_append, linesOf_feed, List.count_cons_self, List.getElem?_cons_succ, there]
      · simpa using within
      · rw [List.cons_append, linesOf_feed, List.count_cons_self, List.take_succ_cons]
        simp [lengthOf] at sizes ⊢
        omega
    · obtain ⟨first, rest, lines, lines'⟩ := linesOf_cons feed (before ++ behind)
      rw [List.cons_append, lines', List.count_cons_of_ne feed]
      rw [lines] at there sizes
      by_cases more : '\n' ∈ before
      · obtain ⟨row, count⟩ := Nat.exists_eq_succ_of_ne_zero (Nat.pos_iff_ne_zero.mp (List.count_pos_iff.mpr more))
        rw [count] at there sizes ⊢
        rw [List.getElem?_cons_succ] at there
        refine ⟨line, by rw [List.getElem?_cons_succ, there], by simpa [more] using within, ?_⟩
        simp [lengthOf, more] at sizes ⊢
        omega
      · rw [List.count_eq_zero.mpr more] at there sizes ⊢
        cases there
        simp [lengthOf] at sizes
        refine ⟨c :: line, rfl, ?_, ?_⟩
        · simp [feed, more]
          omega
        · simp [feed, more, lengthOf]

/-- At the line and the column of an offset stands the element around it. -/
theorem Document.find_positionAt (d : Document) (within : offset ≤ d.source.length) :
    d.find d.source (Text.positionAt d.source offset).line (Text.positionAt d.source offset).column =
      .ok (d.elementAt? offset) := by
  obtain ⟨line, there, inside, sizes⟩ := lines_around (d.source.take offset) (d.source.drop offset)
  rw [List.take_append_drop] at there sizes
  rw [List.length_take, Nat.min_eq_left within] at sizes
  obtain ⟨row, column, place, rfl, rfl⟩ : ∃ row column, Text.positionAt d.source offset = ⟨row + 1, column + 1⟩ ∧
      row = (d.source.take offset).count '\n' ∧ column = lastLength (d.source.take offset) :=
    ⟨_, _, rfl, rfl, rfl⟩
  rw [place]
  generalize (d.source.take offset).count '\n' = row at there sizes ⊢
  generalize lastLength (d.source.take offset) = column at inside sizes ⊢
  have back (n : Nat) : ((n + 1 : Nat) : Int) - 1 = n := by omega
  have found : lineAt? (linesOf d.source) row = .ok (some line) := by
    rw [lineAt?, if_pos (Int.natCast_nonneg row), Int.toNat_natCast, there]
  have characters : columnOffset line ((column + 1 : Nat) : Int) = column := by
    rw [columnOffset, back, if_neg (by omega), Int.toNat_natCast, Nat.min_eq_left inside]
  unfold find
  dsimp only
  rw [back, found]
  simp only [bind, Except.bind, if_neg (show ¬((row + 1 : Nat) : Int) < 1 by omega), Int.toNat_natCast, characters]
  rw [offsetAt_eq, List.getD_eq_getElem?_getD, there, Option.getD_some, Nat.min_eq_left inside, sizes]
  rfl

variable {place start : Nat} {pieces : List Piece} {e : Element} {before behind text new front run : List Char}

/-! ### Elements that are found -/

namespace Element

def chars (e : Element) : List Char := charsOf e.opening ++ charsOf e.children ++ e.closing.getD []

def piece (e : Element) : Piece := .element e.name e.opening e.children e.closing

theorem length_chars (e : Element) : e.chars.length = e.size := by
  simp [chars, size, Nat.add_assoc]

end Element

/-- An element stands in a text that begins at an offset. -/
structure Element.Spans (e : Element) (start : Nat) (text before behind : List Char) : Prop where
  whole : text = before ++ e.chars ++ behind
  begins : e.start = start + before.length
  formed : e.piece.Formed

theorem Element.Spans.within (spans : e.Spans (start + front.length) text before behind) (rest : List Char) :
    e.Spans start (front ++ text ++ rest) (front ++ before) (behind ++ rest) where
  whole := by rw [spans.whole]; simp
  begins := by rw [spans.begins, List.length_append, Nat.add_assoc]
  formed := spans.formed

mutual

/-- An element that is found in a piece stands in it. -/
theorem Piece.elementAt_spans (place start : Nat) (piece : Piece) (formed : piece.Formed)
    (found : piece.elementAt place start = some e) :
    ∃ before behind, e.Spans start piece.chars before behind := by
  cases piece with
  | code | stray | text | reference => simp [Piece.elementAt] at found
  | braces inner =>
    rw [Piece.elementAt] at found
    rw [Piece.chars]
    exact elementAmong_spans place start inner (by simpa [Piece.Formed] using formed) found
  | element name opening children closing =>
    rw [Piece.elementAt] at found
    have parts := formed
    rw [Piece.Formed] at parts
    rw [Piece.chars]
    split at found
    · split at found
      · rename_i inner among
        cases found
        obtain ⟨before, behind, spans⟩ := elementAmong_spans place start opening parts.2.2.2.1 among
        have whole : e.Spans start ([] ++ charsOf opening ++ (charsOf children ++ closing.getD [])) _ _ :=
          Element.Spans.within spans _
        exact ⟨_, _, by simpa using whole⟩
      · split at found
        · rename_i inner among
          cases found
          obtain ⟨before, behind, spans⟩ := elementAmong_spans place _ children parts.2.2.2.2 among
          exact ⟨_, _, spans.within (closing.getD [])⟩
        · cases found
          exact ⟨[], [], by simp [Element.chars], rfl, formed⟩
    · cases found
termination_by structural piece

/-- An element that is found among pieces stands in one of them. -/
theorem elementAmong_spans (place start : Nat) (pieces : List Piece) (formed : AreFormed pieces)
    (found : elementAmong place start pieces = some e) :
    ∃ before behind, e.Spans start (charsOf pieces) before behind := by
  cases pieces with
  | nil => simp [elementAmong] at found
  | cons piece rest =>
    rw [elementAmong] at found
    rw [areFormed_cons] at formed
    rw [charsOf_cons]
    split at found
    · rename_i inner there
      cases found
      obtain ⟨before, behind, spans⟩ := Piece.elementAt_spans place start piece formed.1 there
      have whole : e.Spans start ([] ++ piece.chars ++ charsOf rest) _ _ := Element.Spans.within spans _
      exact ⟨_, _, by simpa using whole⟩
    · obtain ⟨before, behind, spans⟩ := elementAmong_spans place _ rest formed.2 found
      have whole := spans.within []
      exact ⟨_, _, by simpa using whole⟩
termination_by structural pieces

end

/-- The source around an element that is found in a document. -/
theorem Document.elementAt?_spans (d : Document) (found : d.elementAt? place = some e) :
    ∃ before behind, e.Spans 0 d.source before behind := by
  unfold Document.elementAt? at found
  rw [d.parsed] at found
  obtain ⟨before, behind, spans⟩ := elementAmong_spans place 0 _ (formed_parse _ _) found
  rw [charsOf_parse] at spans
  exact ⟨before, behind, spans⟩

/-! ### Texts that are replaced -/

/-- What belongs to a run stands at the beginning of the gap and the pieces. -/
theorem runFrom_prefix (gap : List Char) (pieces : List Piece) : runFrom gap pieces <+: gap ++ charsOf pieces := by
  fun_induction runFrom gap pieces with
  | case1 gap t rest ih => simpa [Piece.chars] using ih
  | case2 gap t rest ih => simpa [Piece.chars] using ih
  | case3 gap t rest ih => simpa [Piece.chars] using ih
  | case4 gap pieces => exact List.nil_prefix

/-- The run of an element stands in the characters of its children. -/
theorem textRun?_spans (found : textRun? pieces = some (front, run)) :
    ∃ rest, charsOf pieces = front ++ run ++ rest := by
  induction pieces generalizing front run with
  | nil => simp [textRun?] at found
  | cons piece rest ih =>
    -- The run begins in one of the other pieces.
    have later (found : (textRun? rest).map (fun parts => (piece.chars ++ parts.1, parts.2)) =
        some (front, run)) : ∃ behind, charsOf (piece :: rest) = front ++ run ++ behind := by
      obtain ⟨⟨front', run'⟩, inner, parts⟩ := Option.map_eq_some_iff.mp found
      obtain ⟨rfl, rfl⟩ := Prod.mk.inj parts
      obtain ⟨behind, whole⟩ := ih inner
      exact ⟨behind, by simp [whole]⟩
    unfold textRun? at found
    dsimp only at found
    split at found
    · rename_i t
      split at found
      · exact later found
      · obtain ⟨rfl, rfl⟩ := Prod.mk.inj (Option.some.inj found)
        obtain ⟨behind, whole⟩ := runFrom_prefix [] rest
        exact ⟨behind, by simpa [Piece.chars] using whole.symm⟩
    · exact later found

/-- The blanks at the end of a text. -/
def trailing (cs : List Char) : List Char := cs.drop (Text.trimEnd cs).length

/-- The characters of the children of an element, with another text in the place of its own one. -/
def renewed (children : List Piece) (new : List Char) : List Char :=
  match textRun? children with
  | some (front, run) =>
    front ++ (run.takeWhile Text.isBlank ++ new ++ trailing run) ++ (charsOf children).drop (front ++ run).length
  | none => if children.any Piece.isSolid then new ++ charsOf children else new

theorem decodeText_encode (text : List Char) : decodeText (Text.Utf8.encode text) = .ok text := by
  rw [decodeText, Text.Utf8.decode_encode]
  rfl

theorem take_encode (before behind : List Char) :
    (Text.Utf8.encode (before ++ behind)).take (Text.Utf8.size before) = Text.Utf8.encode before := by
  rw [Text.Utf8.encode_append, Text.Utf8.size, List.take_left]

theorem drop_encode (before behind : List Char) :
    (Text.Utf8.encode (before ++ behind)).drop (Text.Utf8.size before) = Text.Utf8.encode behind := by
  rw [Text.Utf8.encode_append, Text.Utf8.size, List.drop_left]

/-- A text in the place of the bytes of another one. -/
theorem spliceBytes_encode (before middle behind new : List Char) :
    spliceBytes (Text.Utf8.encode (before ++ middle ++ behind)) (Text.Utf8.size before)
      (Text.Utf8.size (before ++ middle)) new = .ok (before ++ new ++ behind) := by
  have first := take_encode before (middle ++ behind)
  rw [← List.append_assoc] at first
  rw [spliceBytes, first, drop_encode, ← Text.Utf8.encode_append, ← Text.Utf8.encode_append, decodeText_encode]

theorem byteOffset_append (before behind : List Char) :
    byteOffset (before ++ behind) before.length = Text.Utf8.size before := by
  rw [byteOffset, List.take_left]

/-- The source after an edit of the text of an element. -/
theorem Element.replaceText_eq (spans : e.Spans 0 text before behind) (new : List Char) :
    e.replaceText text text new =
      .ok (before ++ (charsOf e.opening ++ renewed e.children new ++ e.closing.getD []) ++ behind) := by
  have begins : e.start = before.length := by rw [spans.begins, Nat.zero_add]
  have opens : e.openingStop = (before ++ charsOf e.opening).length := by
    rw [Element.openingStop, begins, List.length_append]
  unfold Element.replaceText renewed
  cases found : textRun? e.children with
  | some parts =>
    obtain ⟨front, run⟩ := parts
    obtain ⟨rest, children⟩ := textRun?_spans found
    -- The source, cut at the beginning and at the end of the run.
    have whole : text = (before ++ charsOf e.opening ++ front) ++ run ++ (rest ++ (e.closing.getD [] ++ behind)) := by
      rw [spans.whole, Element.chars, children]
      simp
    have first : byteOffset text (e.openingStop + front.length) =
        Text.Utf8.size (before ++ charsOf e.opening ++ front) := by
      rw [opens, ← List.length_append, whole, List.append_assoc, byteOffset_append]
    have last : byteOffset text (e.openingStop + front.length + run.length) =
        Text.Utf8.size (before ++ charsOf e.opening ++ front ++ run) := by
      rw [opens, ← List.length_append, ← List.length_append, whole, byteOffset_append]
    dsimp only
    rw [first, last, whole, take_encode, drop_encode, decodeText_encode]
    simp only [bind, Except.bind]
    rw [spliceBytes_encode, children, List.drop_left]
    simp [trailing]
  | none =>
    dsimp only
    have whole : text = (before ++ charsOf e.opening) ++ charsOf e.children ++ (e.closing.getD [] ++ behind) := by
      rw [spans.whole, Element.chars]
      simp
    have first : byteOffset text e.openingStop = Text.Utf8.size (before ++ charsOf e.opening) := by
      rw [opens, whole, List.append_assoc, byteOffset_append]
    split
    · have splice := spliceBytes_encode (before ++ charsOf e.opening) [] (charsOf e.children ++
        (e.closing.getD [] ++ behind)) new
      rw [List.append_nil] at splice
      rw [first, whole, List.append_assoc, splice]
      simp
    · have last : byteOffset text e.closingStart =
          Text.Utf8.size (before ++ charsOf e.opening ++ charsOf e.children) := by
        rw [Element.closingStart, opens, ← List.length_append, whole, byteOffset_append]
      rw [first, last, whole, spliceBytes_encode]
      simp

/-! ### Edits of texts -/

variable {d : Document} {line column : Int} {prior : String} {result : List Char}

/-- An element that is found at a line and a column is one of the document. -/
theorem Document.elementAt?_of_find (found : d.find text line column = .ok (some e)) :
    ∃ place, d.elementAt? place = some e := by
  unfold Document.find at found
  cases row : lineAt? (linesOf text) (line - 1) with
  | error fault =>
    rw [row] at found
    cases found
  | ok there =>
    rw [row] at found
    simp only [bind, Except.bind] at found
    cases there with
    | none => cases found
    | some characters =>
      dsimp only at found
      split at found
      · cases found
      · exact ⟨_, Except.ok.inj found⟩

/-- When the text of an element is replaced. -/
theorem Document.updateText_eq_ok {new : String} : d.updateText text line column prior new = .ok result ↔
    ∃ e, d.find text line column = .ok (some e) ∧ e.closing.isSome = true ∧ Unmarked new.toList ∧
      (Text.allBlank prior.toList = true ∨ e.textContent = Text.collapsedText prior) ∧
      e.replaceText d.source text new.toList = .ok result := by
  have marks : new.toList.any isMarkupMark = true ↔ ¬Unmarked new.toList := by
    simp [Unmarked]
  unfold Document.updateText
  cases found : d.find text line column with
  | error fault => simp [Except.mapError, bind, Except.bind]
  | ok there =>
    simp only [Except.mapError, bind, Except.bind]
    cases there with
    | none => simp [refuse]
    | some e =>
      simp only [Except.ok.injEq, Option.some.injEq, exists_eq_left']
      by_cases closed : e.closing.isNone = true
      · have none : ¬e.closing.isSome = true := by simpa using closed
        rw [if_pos closed]
        simp [refuse, none]
      · have some_ : e.closing.isSome = true := by simpa [Option.isSome_iff_ne_none] using closed
        rw [if_neg closed]
        by_cases unmarked : Unmarked new.toList
        · rw [if_neg (fun marked => marks.mp marked unmarked)]
          by_cases blank : Text.allBlank prior.toList = true
          · simp [some_, unmarked, blank]
          · rw [if_pos (by simpa using blank)]
            by_cases same : e.textContent = Text.collapsedText prior
            · simp [checkContent, same, some_, unmarked]
            · simp [checkContent, same, blank, refuse]
        · rw [if_pos (marks.mpr unmarked)]
          simp [refuse, unmarked]

end Retouch.Markup
