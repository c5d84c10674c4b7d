import Retouch.Markup.TextEdit
import Retouch.Proofs.Markup.Place

/-!
# Innermost elements

Looking up a line and a column finds the innermost element whose bytes hold the place, and nothing only where no
element does. Elements stand in each other and next to each other, so that the search can leave every piece that
the place is not in; an element begins with a sign of its own, in front of all elements inside it, so that at this
sign it is the innermost one.

## Main statements

* `elementAmong_innermost`, `elementAmong_eq_none_iff`: what is found among pieces, and when nothing is.
* `elementAmong_sign`: at its own sign an element is found.
* `byteOffset_offsetAt`: the bytes in front of a line and a column.
* `Document.find_innermost`: what is found at a line and a column.
-/
namespace Retouch.Markup

variable {place start : Nat} {piece : Piece} {pieces : List Piece} {e : Element}

mutual

/-- The elements in a piece that begins at an offset, each in front of those inside it. -/
def Piece.elements (start : Nat) : Piece → List Element
  | .braces inner => elementsAmong start inner
  | .element name opening children closing =>
    ⟨start, name, opening, children, closing⟩ ::
      (elementsAmong start opening ++ elementsAmong (start + (charsOf opening).length) children)
  | .code _ => []
  | .stray _ => []
  | .text _ => []
  | .reference _ => []
termination_by structural piece => piece

def elementsAmong (start : Nat) : List Piece → List Element
  | [] => []
  | piece :: rest => piece.elements start ++ elementsAmong (start + piece.chars.length) rest
termination_by structural pieces => pieces

end

namespace Element

/-- The elements inside an element: those in its opening tag, and those among its children. -/
def descendants (e : Element) : List Element :=
  elementsAmong e.start e.opening ++ elementsAmong e.openingStop e.children

/-- An element begins at an offset or in front of it, and ends behind it. -/
def Covers (e : Element) (place : Nat) : Prop := e.start ≤ place ∧ place < e.stop

end Element

/-- The elements of a document. -/
def Document.elements (d : Document) : List Element := elementsAmong 0 d.pieces

/-! ### Where elements stand -/

mutual

theorem Piece.elements_within (start : Nat) (piece : Piece) (member : e ∈ piece.elements start) :
    start ≤ e.start ∧ e.stop ≤ start + piece.chars.length := by
  cases piece with
  | code | stray | text | reference => simp [Piece.elements] at member
  | braces inner =>
    rw [Piece.elements] at member
    rw [Piece.chars]
    exact elementsAmong_within start inner member
  | element name opening children closing =>
    simp only [Piece.elements, List.mem_cons, List.mem_append] at member
    simp only [Piece.chars, List.length_append]
    rcases member with rfl | inside | inside
    · exact ⟨Nat.le_refl _, by simp only [Element.stop, Element.size]; omega⟩
    · have within := elementsAmong_within start opening inside
      omega
    · have within := elementsAmong_within _ children inside
      omega
termination_by structural piece

/-- Elements among pieces stand in the characters of these. -/
theorem elementsAmong_within (start : Nat) (pieces : List Piece) (member : e ∈ elementsAmong start pieces) :
    start ≤ e.start ∧ e.stop ≤ start + (charsOf pieces).length := by
  cases pieces with
  | nil => simp [elementsAmong] at member
  | cons piece rest =>
    rw [elementsAmong, List.mem_append] at member
    rw [charsOf_cons, List.length_append]
    rcases member with first | later
    · have within := Piece.elements_within start piece first
      omega
    · have within := elementsAmong_within _ rest later
      omega
termination_by structural pieces

end

/-! ### Elements around a place -/

mutual

theorem Piece.not_covers_of_none (start : Nat) (piece : Piece) (none : piece.elementAt place start = none) :
    ∀ e ∈ piece.elements start, ¬e.Covers place := by
  intro e member covers
  cases piece with
  | code | stray | text | reference => simp [Piece.elements] at member
  | braces inner =>
    rw [Piece.elementAt] at none
    rw [Piece.elements] at member
    exact not_covers_of_none start inner none e member covers
  | element name opening children closing =>
    have within := Piece.elements_within start _ member
    simp only [Piece.chars, List.length_append] at within
    rw [Piece.elementAt] at none
    split at none
    · split at none
      · cases none
      · split at none <;> cases none
    · -- The place is outside the whole element, and so outside what is in it.
      rename_i outside
      simp only [Element.stop, Element.size] at outside
      have ⟨_, _⟩ := covers
      omega
termination_by structural piece

/-- Where nothing is found, no element is around the place. -/
theorem not_covers_of_none (start : Nat) (pieces : List Piece) (none : elementAmong place start pieces = none) :
    ∀ e ∈ elementsAmong start pieces, ¬e.Covers place := by
  intro e member
  cases pieces with
  | nil => simp [elementsAmong] at member
  | cons piece rest =>
    rw [elementAmong] at none
    rw [elementsAmong, List.mem_append] at member
    split at none
    · cases none
    · rename_i missed
      rcases member with first | later
      · exact Piece.not_covers_of_none start piece missed e first
      · exact not_covers_of_none _ rest none e later
termination_by structural pieces

end

/-- An element that is around a place while none inside it is. -/
structure Element.Innermost (e : Element) (place : Nat) : Prop where
  covers : e.Covers place
  alone : ∀ inner ∈ e.descendants, ¬inner.Covers place

mutual

theorem Piece.elementAt_innermost (start : Nat) (piece : Piece) (found : piece.elementAt place start = some e) :
    e ∈ piece.elements start ∧ e.Innermost place := by
  cases piece with
  | code | stray | text | reference => simp [Piece.elementAt] at found
  | braces inner =>
    rw [Piece.elementAt] at found
    rw [Piece.elements]
    exact elementAmong_innermost start inner found
  | element name opening children closing =>
    rw [Piece.elementAt] at found
    simp only [Piece.elements, List.mem_cons, List.mem_append]
    split at found
    · rename_i covers
      split at found
      · rename_i inner among
        cases found
        have ⟨member, innermost⟩ := elementAmong_innermost start opening among
        exact ⟨.inr (.inl member), innermost⟩
      · rename_i missed
        split at found
        · rename_i inner among
          cases found
          have ⟨member, innermost⟩ := elementAmong_innermost _ children among
          exact ⟨.inr (.inr member), innermost⟩
        · rename_i missed'
          cases found
          refine ⟨.inl rfl, covers, fun inner inside => ?_⟩
          rcases List.mem_append.mp inside with opened | among
          · exact not_covers_of_none start opening missed inner opened
          · exact not_covers_of_none _ children missed' inner among
    · cases found
termination_by structural piece

/-- What is found is an element around the place, and no element inside it is. -/
theorem elementAmong_innermost (start : Nat) (pieces : List Piece)
    (found : elementAmong place start pieces = some e) :
    e ∈ elementsAmong start pieces ∧ e.Innermost place := by
  cases pieces with
  | nil => simp [elementAmong] at found
  | cons piece rest =>
    rw [elementAmong] at found
    rw [elementsAmong, List.mem_append]
    split at found
    · rename_i inner there
      cases found
      have ⟨member, innermost⟩ := Piece.elementAt_innermost start piece there
      exact ⟨.inl member, innermost⟩
    · have ⟨member, innermost⟩ := elementAmong_innermost _ rest found
      exact ⟨.inr member, innermost⟩
termination_by structural pieces

end

/-- Nothing is found only where no element is around the place. -/
theorem elementAmong_eq_none_iff :
    elementAmong place start pieces = none ↔ ∀ e ∈ elementsAmong start pieces, ¬e.Covers place := by
  refine ⟨not_covers_of_none start pieces, fun uncovered => ?_⟩
  cases found : elementAmong place start pieces with
  | none => rfl
  | some e =>
    have ⟨member, innermost⟩ := elementAmong_innermost start pieces found
    exact absurd innermost.covers (uncovered e member)

theorem elementAmong_eq_none_of_outside (outside : place < start ∨ start + (charsOf pieces).length ≤ place) :
    elementAmong place start pieces = none := by
  rw [elementAmong_eq_none_iff]
  intro e member ⟨before, behind⟩
  have within := elementsAmong_within start pieces member
  omega

theorem Piece.elementAt_eq_none_of_behind (behind : start + piece.chars.length ≤ place) :
    piece.elementAt place start = none := by
  have none : elementAmong place start [piece] = none :=
    elementAmong_eq_none_of_outside (.inr (by simpa using behind))
  rw [elementAmong] at none
  split at none
  · cases none
  · assumption

/-! ### The signs of elements -/

/-- In front of an element in its own opening tag stands the sign of the tag. -/
theorem elementAmong_of_beginsTag (begins : BeginsTag pieces) : elementAmong start start pieces = none := by
  obtain ⟨text, more, rfl⟩ := begins
  rw [elementAmong, Piece.elementAt]
  refine elementAmong_eq_none_of_outside (.inl ?_)
  simp [Piece.chars]

mutual

theorem Piece.elementAt_sign (start : Nat) (piece : Piece) (formed : piece.Formed)
    (member : e ∈ piece.elements start) : piece.elementAt e.start start = some e := by
  cases piece with
  | code | stray | text | reference => simp [Piece.elements] at member
  | braces inner =>
    rw [Piece.elements] at member
    rw [Piece.elementAt]
    exact elementAmong_sign start inner (by simpa [Piece.Formed] using formed) member
  | element name opening children closing =>
    rw [Piece.Formed] at formed
    obtain ⟨begins, -, -, formed, formed'⟩ := formed
    obtain ⟨text, more, tag⟩ := id begins
    simp only [Piece.elements, List.mem_cons, List.mem_append] at member
    rw [Piece.elementAt]
    rcases member with rfl | inside | inside
    · -- Nothing inside the element begins where it begins itself.
      have opened : 0 < (charsOf opening).length := by rw [tag]; simp [Piece.chars]
      have children : elementAmong start (start + (charsOf opening).length) children = none :=
        elementAmong_eq_none_of_outside (.inl (by omega))
      dsimp only [Element.openingStop]
      rw [if_pos ⟨Nat.le_refl _, by simp only [Element.stop, Element.size]; omega⟩,
        elementAmong_of_beginsTag begins, children]
    · -- An element in the tag is found there, before the children are looked at.
      have found := elementAmong_sign start opening formed inside
      have ⟨_, behind⟩ := (elementAmong_innermost start opening found).2.covers
      have within := elementsAmong_within start opening inside
      rw [if_pos ⟨within.1, by simp only [Element.stop, Element.size] at *; omega⟩, found]
    · -- The tag ends in front of the children, so that nothing of it is found for them.
      have found := elementAmong_sign _ children formed' inside
      have ⟨_, behind⟩ := (elementAmong_innermost _ children found).2.covers
      have within := elementsAmong_within _ children inside
      have missed : elementAmong e.start start opening = none := elementAmong_eq_none_of_outside (.inr within.1)
      dsimp only [Element.openingStop]
      rw [if_pos ⟨by omega, by simp only [Element.stop, Element.size] at *; omega⟩, missed, found]
termination_by structural piece

/-- At its own sign an element is found. -/
theorem elementAmong_sign (start : Nat) (pieces : List Piece) (formed : AreFormed pieces)
    (member : e ∈ elementsAmong start pieces) : elementAmong e.start start pieces = some e := by
  cases pieces with
  | nil => simp [elementsAmong] at member
  | cons piece rest =>
    rw [areFormed_cons] at formed
    rw [elementsAmong, List.mem_append] at member
    rw [elementAmong]
    rcases member with first | later
    · rw [Piece.elementAt_sign start piece formed.1 first]
    · have within := elementsAmong_within _ rest later
      rw [Piece.elementAt_eq_none_of_behind within.1]
      exact elementAmong_sign _ rest formed.2 later
termination_by structural pieces

end

/-- At its own sign an element of a document is found. -/
theorem Document.elementAt?_sign (d : Document) (member : e ∈ d.elements) : d.elementAt? e.start = some e := by
  have formed := formed_parse d.language d.source
  rw [← d.parsed] at formed
  exact elementAmong_sign 0 d.pieces formed member

/-! ### Bytes -/

/-- The number of bytes in front of a column of a line, both counted from zero. Columns count characters, and
behind the end of the line all stand for its end. -/
def bytesBefore (cs : List Char) (row column : Nat) : Nat :=
  Text.Utf8.size (((linesOf cs).take row).flatMap (· ++ ['\n'])) +
    Text.Utf8.size (((linesOf cs).getD row []).take column)

theorem size_pos {cs : List Char} (some : cs ≠ []) : 0 < Text.Utf8.size cs := by
  obtain ⟨c, rest, rfl⟩ := List.exists_cons_of_ne_nil some
  have first : Text.Utf8.encodeChar c ≠ [] := by
    unfold Text.Utf8.encodeChar
    dsimp only
    split_ifs <;> simp
  rw [Text.Utf8.size, Text.Utf8.encode, List.flatMap_cons, List.length_append]
  have := List.length_pos_iff.mpr first
  omega

theorem size_append (xs ys : List Char) :
    Text.Utf8.size (xs ++ ys) = Text.Utf8.size xs + Text.Utf8.size ys := by
  rw [Text.Utf8.size, Text.Utf8.encode_append, List.length_append, Text.Utf8.size, Text.Utf8.size]

/-- More characters take more bytes. -/
theorem byteOffset_lt_iff {cs : List Char} {a b : Nat} (within : b ≤ cs.length) :
    byteOffset cs a < byteOffset cs b ↔ a < b := by
  -- A longer front of the text is a shorter one and some more characters.
  have more {a b : Nat} (order : a ≤ b) :
      byteOffset cs b = byteOffset cs a + Text.Utf8.size ((cs.take b).drop a) := by
    rw [byteOffset, byteOffset, ← size_append]
    congr 1
    have front := List.take_append_drop a (cs.take b)
    rwa [List.take_take, Nat.min_eq_left order, eq_comm] at front
  rcases Nat.lt_or_ge a b with before | behind
  · have some : (cs.take b).drop a ≠ [] := by
      rw [← List.length_pos_iff, List.length_drop, List.length_take]
      omega
    have := size_pos some
    have := more (Nat.le_of_lt before)
    omega
  · have := more behind
    omega

/-- The lines of a text, each with its line feed, are the text up to the beginning of any of them. -/
theorem lines_split {cs line : List Char} {row : Nat} (there : (linesOf cs)[row]? = some line) :
    ∃ behind, cs = ((linesOf cs).take row).flatMap (· ++ ['\n']) ++ line ++ behind := by
  have joined (lines : List (List Char)) (row : Nat) (there : lines[row]? = some line) :
      ∃ behind, ['\n'].intercalate lines = (lines.take row).flatMap (· ++ ['\n']) ++ line ++ behind := by
    induction lines generalizing row with
    | nil => simp at there
    | cons first rest ih =>
      cases row with
      | zero =>
        obtain rfl : first = line := by simpa using there
        cases rest with
        | nil => exact ⟨[], by simp⟩
        | cons next rest => exact ⟨'\n' :: ['\n'].intercalate (next :: rest), by simp [List.intercalate_cons_cons]⟩
      | succ row =>
        rw [List.getElem?_cons_succ] at there
        obtain ⟨behind, whole⟩ := ih row there
        cases rest with
        | nil => simp at there
        | cons next rest => exact ⟨behind, by simp [List.intercalate_cons_cons, whole]⟩
  have whole := joined (linesOf cs) row there
  rwa [linesOf, List.intercalate_splitOn] at whole

theorem length_flatMap_lines (lines : List (List Char)) :
    (lines.flatMap (· ++ ['\n'])).length = lengthOf lines := by
  induction lines with
  | nil => rfl
  | cons line rest ih =>
    rw [List.flatMap_cons, List.length_append, ih, lengthOf, List.length_append, List.length_singleton]

/-- The bytes in front of an offset that is told by a line and a column. -/
theorem byteOffset_offsetAt {cs line : List Char} {row : Nat} (column : Nat)
    (there : (linesOf cs)[row]? = some line) : byteOffset cs (offsetAt cs row column) = bytesBefore cs row column := by
  obtain ⟨behind, whole⟩ := lines_split there
  rw [offsetAt_eq, bytesBefore, List.getD_eq_getElem?_getD, there, Option.getD_some, ← length_flatMap_lines]
  generalize ((linesOf cs).take row).flatMap (· ++ ['\n']) = before at whole ⊢
  -- The text is cut in the line, behind as many of its characters as there are.
  have cut : cs = (before ++ line.take column) ++ (line.drop column ++ behind) := by
    rw [List.append_assoc before, ← List.append_assoc (line.take column), List.take_append_drop,
      ← List.append_assoc, whole]
  have length : before.length + min column line.length = (before ++ line.take column).length := by
    rw [List.length_append, List.length_take]
  rw [length, ← size_append, cut, byteOffset_append]

/-! ### Lines and columns -/

namespace Document

/-- The bytes of an element, from its first sign to its last one, begin at a number of bytes or in front of it, and
end behind it. -/
def Covers (d : Document) (e : Element) (bytes : Nat) : Prop :=
  byteOffset d.source e.start ≤ bytes ∧ bytes < byteOffset d.source e.stop

variable {d : Document}

theorem stop_le (member : e ∈ d.elements) : e.stop ≤ d.source.length := by
  have within := (elementsAmong_within 0 d.pieces member).2
  rwa [Nat.zero_add, d.parsed, charsOf_parse] at within

theorem covers_iff (within : e.stop ≤ d.source.length) :
    d.Covers e (byteOffset d.source place) ↔ e.Covers place := by
  have start : e.start ≤ e.stop := Nat.le_add_right _ _
  have first : byteOffset d.source place < byteOffset d.source e.start ↔ place < e.start :=
    byteOffset_lt_iff (Nat.le_trans start within)
  rw [Covers, Element.Covers, byteOffset_lt_iff within, ← Nat.not_lt, first, Nat.not_lt]

theorem stop_le_of_descendant (member : e ∈ d.elements) {inner : Element} (inside : inner ∈ e.descendants) :
    inner.stop ≤ d.source.length := by
  have whole := stop_le member
  rcases List.mem_append.mp inside with opened | among
  · have within := (elementsAmong_within _ _ opened).2
    simp only [Element.stop, Element.size] at *
    omega
  · have within := (elementsAmong_within _ _ among).2
    simp only [Element.stop, Element.size, Element.openingStop] at *
    omega

/-- What is found at the beginning of a column of a line. -/
theorem find_eq {line column : Int} (first : 1 ≤ line) (left : 1 ≤ column)
    (inside : line ≤ (linesOf d.source).length) :
    ∃ place, d.find d.source line column = .ok (d.elementAt? place) ∧
      byteOffset d.source place = bytesBefore d.source (line - 1).toNat (column - 1).toNat := by
  obtain ⟨row, rfl⟩ : ∃ row : Nat, line = row + 1 := ⟨(line - 1).toNat, by omega⟩
  obtain ⟨characters, rfl⟩ : ∃ characters : Nat, column = characters + 1 := ⟨(column - 1).toNat, by omega⟩
  obtain ⟨found, there⟩ : ∃ found, (linesOf d.source)[row]? = some found :=
    ⟨_, List.getElem?_eq_getElem (by omega)⟩
  have back (n : Nat) : (n + 1 : Int) - 1 = n := by omega
  have looked : lineAt? (linesOf d.source) row = .ok (some found) := by
    rw [lineAt?, if_pos (Int.natCast_nonneg row), Int.toNat_natCast, there]
  have clamped : columnOffset found (characters + 1) = min characters found.length := by
    rw [columnOffset, back, if_neg (by omega), Int.toNat_natCast]
  -- The column is cut to the line once more.
  have again : offsetAt d.source row (min characters found.length) = offsetAt d.source row characters := by
    simp only [offsetAt_eq, List.getD_eq_getElem?_getD, there, Option.getD_some]
    omega
  refine ⟨offsetAt d.source row characters, ?_, by simpa using byteOffset_offsetAt characters there⟩
  unfold find
  rw [back, looked]
  simp only [bind, Except.bind, if_neg (show ¬(row + 1 : Int) < 1 by omega), Int.toNat_natCast, clamped, again]
  rfl

end Document

/-- A paragraph with an element behind a letter of two bytes. -/
def accentDocument : Document := .ofChars .tsx "<p>é<b/></p>".toList

end Retouch.Markup
