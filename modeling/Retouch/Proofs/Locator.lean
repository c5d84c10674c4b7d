import Retouch.Proofs.Style.Numeral
import Retouch.Proofs.Text.Blank
import Retouch.Proofs.Wire.Message

/-!
# Locators there and back

An element locator is put together from a file, a line and a column, a style locator from a file and selectors. The
first one is cut at its last two colons, so that its file may hold any; the second one at its first colon before a dot,
so that its file must not hold this mark. Numbers are read up to the length that integers may have.

## Main statements

* `parseElement_written`: an element locator is read as what it was put together from, unless a number is too long.
* `parseStyle_written`: so is a style locator, but for selectors that are empty.
* `locators_there_and_back`: both, and a place that was read is read again from the wire.
-/
namespace Retouch

/-! ### Decimal numbers -/

namespace Text

/-- Digits are read as they are. -/
theorem groupedDigits_digits {cs : List Char} (digits : ∀ c ∈ cs, c.isDigit = true) {pending : Bool}
    (filled : pending = true → cs ≠ []) : groupedDigits pending cs = some cs := by
  induction cs generalizing pending with
  | nil =>
    cases pending with
    | true => exact absurd rfl (filled rfl)
    | false => rfl
  | cons c rest ih =>
    have digit := digits c List.mem_cons_self
    have noMark : c ≠ '_' := by
      rintro rfl
      revert digit
      decide
    have rest_ok : groupedDigits false rest = some rest :=
      ih (fun d member => digits d (List.mem_cons_of_mem _ member)) nofun
    rw [groupedDigits, if_neg noMark, if_pos (isDigit_of_ascii c digit), rest_ok, Option.map_some]

/-- No blank is a digit. -/
theorem not_blank_of_digit {c : Char} (digit : c.isDigit = true) : isBlank c = false := by
  cases blank : isBlank c with
  | false => rfl
  | true =>
    have none := of_blank (p := fun d => !d.isDigit) (by decide) blank
    simp [digit] at none

/-- The digits of a natural number are read as this number, unless they are too many. -/
theorem integer?_toDigits (n : Nat) :
    integer? (Nat.toDigits 10 n) = if n < 10 ^ longestInteger then some (n : Int) else none := by
  have digits : ∀ c ∈ Nat.toDigits 10 n, c.isDigit = true := fun c => Json.isDigit_toDigits
  have filled : Nat.toDigits 10 n ≠ [] := Nat.toDigits_ne_nil
  have bare : trim (Nat.toDigits 10 n) = Nat.toDigits 10 n := by
    apply trim_of_bare
    constructor
    · intro c found
      exact not_blank_of_digit (digits c (List.mem_of_head? found))
    · intro c found
      exact not_blank_of_digit (digits c (List.mem_of_getLast? found))
  have value : digitsValue (Nat.toDigits 10 n) = n := by
    rw [Style.digitsValue_eq digits, Nat.ofDigitChars_ten_toDigits]
  have long : longestInteger < (Nat.toDigits 10 n).length ↔ ¬n < 10 ^ longestInteger := by
    rw [← Nat.not_le, Nat.length_toDigits_le_iff (by decide) (by decide)]
  have grouped : groupedDigits true (Nat.toDigits 10 n) = some (Nat.toDigits 10 n) :=
    groupedDigits_digits digits fun _ => filled
  -- No sign stands in front.
  have unsigned : integer? (Nat.toDigits 10 n) =
      if longestInteger < (Nat.toDigits 10 n).length then none else some (digitsValue (Nat.toDigits 10 n) : Int) := by
    obtain ⟨c, rest, first⟩ := List.exists_cons_of_ne_nil filled
    have digit : c.isDigit = true := digits c (first ▸ List.mem_cons_self)
    have noMinus : c ≠ '-' := by
      rintro rfl
      exact absurd digit (by decide)
    have noPlus : c ≠ '+' := by
      rintro rfl
      exact absurd digit (by decide)
    rw [first] at bare grouped ⊢
    simp [integer?, bare, grouped, noMinus, noPlus]
  rw [unsigned, value]
  by_cases short : n < 10 ^ longestInteger
  · rw [if_neg fun many => long.mp many short, if_pos short]
  · rw [if_pos (long.mpr short), if_neg short]

end Text

namespace SourceLocator

/-! ### Cutting from behind -/

/-- What stands behind the last colon is told from what stands in front. -/
theorem span_reverse {front back : List Char} (noColon : ':' ∉ back) :
    (front ++ ':' :: back).reverse.span (· ≠ ':') = (back.reverse, ':' :: front.reverse) := by
  have reversed : (front ++ ':' :: back).reverse = back.reverse ++ ':' :: front.reverse := by simp
  have solid : ∀ c ∈ back.reverse, decide (c ≠ ':') = true := by
    intro c member
    simp only [decide_eq_true_eq]
    rintro rfl
    exact noColon (List.mem_reverse.mp member)
  rw [reversed, List.span_eq_takeWhile_dropWhile, List.takeWhile_append_of_pos solid,
    List.dropWhile_append_of_pos solid]
  simp

theorem lastTwo_append (file : List Char) {line column : List Char} (plain : ':' ∉ line) (plain' : ':' ∉ column) :
    lastTwo (file ++ ':' :: (line ++ ':' :: column)) = some (file, line, column) := by
  have apart : file ++ ':' :: (line ++ ':' :: column) = (file ++ ':' :: line) ++ ':' :: column := by simp
  unfold lastTwo
  dsimp only
  rw [apart, span_reverse plain']
  dsimp only
  rw [List.reverse_reverse, span_reverse plain]
  simp

/-! ### The first mark -/

/-- A text that does not hold the mark is cut at the colon behind it, if a dot follows. -/
theorem cutAtMark_append {file : List Char} (unmarked : ¬[':', '.'] <:+: file) (rest : List Char) :
    cutAtMark (file ++ ':' :: '.' :: rest) = some (file, '.' :: rest) := by
  induction file with
  | nil => rfl
  | cons c file ih =>
    have ih := ih fun inside => unmarked (List.infix_cons inside)
    rw [List.cons_append]
    unfold cutAtMark
    split
    · rename_i found
      obtain ⟨rfl, next⟩ := List.cons.inj found
      -- The dot would be the next character of the file.
      cases file with
      | nil => cases next
      | cons d more =>
        obtain ⟨rfl, -⟩ := List.cons.inj next
        exact absurd ⟨[], more, rfl⟩ unmarked
    · rename_i found
      obtain ⟨rfl, rfl⟩ := List.cons.inj found
      rw [ih, Option.map_some]
    · rename_i found
      cases found

/-! ### Locators -/

/-- An element locator, put together from its parts. -/
def elementText (file : String) (line column : Nat) : String := file ++ ":" ++ toString line ++ ":" ++ toString column

/-- A style locator, put together from its parts. -/
def styleText (file : String) (selectors : List String) : String := file ++ ":" ++ " ".intercalate selectors

theorem toList_elementText (file : String) (line column : Nat) :
    (elementText file line column).toList =
      file.toList ++ ':' :: (Nat.toDigits 10 line ++ ':' :: Nat.toDigits 10 column) := by
  have digits (n : Nat) : (toString n).toList = Nat.toDigits 10 n := Nat.toList_repr
  have colon : ":".toList = [':'] := rfl
  simp only [elementText, String.toList_append, digits, colon, List.append_assoc, List.cons_append, List.nil_append]

/-- An element locator is read as what it was put together from, unless one of its numbers is too long. -/
theorem parseElement_written {file : String} (named : file ≠ "") {line column : Nat} (first : 1 ≤ line)
    (first' : 1 ≤ column) :
    parseElement (elementText file line column) =
      if line < 10 ^ Text.longestInteger ∧ column < 10 ^ Text.longestInteger then .ok (file, line, column)
      else .error ⟨elementText file line column, .notNumbers⟩ := by
  have text := toList_elementText file line column
  have filled : elementText file line column ≠ "" := by
    intro none
    rw [none] at text
    simp at text
  have noColon (n : Nat) : ':' ∉ Nat.toDigits 10 n := by
    intro member
    exact absurd (Json.isDigit_toDigits member) (by decide)
  have file_filled : file.toList.isEmpty = false := by simpa using named
  unfold parseElement
  rw [if_neg filled, text, lastTwo_append file.toList (noColon line) (noColon column)]
  dsimp only
  rw [Text.integer?_toDigits, Text.integer?_toDigits]
  by_cases short : line < 10 ^ Text.longestInteger
  · by_cases short' : column < 10 ^ Text.longestInteger
    · rw [if_pos short, if_pos short', if_pos ⟨short, short'⟩]
      dsimp only
      rw [file_filled, if_neg (by simp), if_neg (by omega), String.ofList_toList]
      rfl
    · rw [if_pos short, if_neg short', if_neg fun both => short' (And.right both)]
  · rw [if_neg short, if_neg fun both => short (And.left both)]

/-- A style locator is read as what it was put together from, but for selectors that are empty. -/
theorem parseStyle_written {file : String} (named : file ≠ "") (unmarked : ¬":.".toList <:+: file.toList)
    {selectors : List String} (dot : ∃ first ∈ selectors.head?, first.toList.head? = some '.')
    (solid : ∀ selector ∈ selectors, ∀ c ∈ selector.toList, Text.isBlank c = false) :
    parseStyle (styleText file selectors) = .ok (file, selectors.filter (· ≠ "")) := by
  obtain ⟨rest, rest_eq⟩ : ∃ rest, (" ".intercalate selectors).toList = '.' :: rest := by
    obtain ⟨first, found, starts⟩ := dot
    obtain ⟨more, rfl⟩ := List.head?_eq_some_iff.mp found
    obtain ⟨behind, name⟩ := List.head?_eq_some_iff.mp starts
    rw [String.toList_intercalate, List.map_cons, name]
    cases more with
    | nil => exact ⟨behind, by simp⟩
    | cons next more => exact ⟨_, by rw [List.map_cons, List.intercalate_cons_cons, List.append_assoc]; rfl⟩
  have text : (styleText file selectors).toList = file.toList ++ ':' :: '.' :: rest := by
    have colon : ":".toList = [':'] := rfl
    rw [styleText, String.toList_append, String.toList_append, rest_eq, colon, List.append_assoc]
    rfl
  have filled : styleText file selectors ≠ "" := by
    intro none
    rw [none] at text
    simp at text
  have words : (Text.words ('.' :: rest)).map String.ofList = selectors.filter (· ≠ "") := by
    have space : " ".toList = [' '] := rfl
    rw [← rest_eq, String.toList_intercalate, space, Text.words_intercalate, List.filter_map, List.map_map]
    · have back : (String.ofList ∘ String.toList) = id := by
        funext s
        exact String.ofList_toList
      rw [back, List.map_id]
      congr 1
      funext s
      simp
    · intro piece member
      obtain ⟨selector, there, rfl⟩ := List.mem_map.mp member
      exact solid selector there
  have some_ : (Text.words ('.' :: rest)).isEmpty = false := by
    cases none : Text.words ('.' :: rest) with
    | nil =>
      obtain ⟨word, there, -⟩ := Text.mem_words (c := '.') List.mem_cons_self rfl
      rw [none] at there
      cases there
    | cons word more => rfl
  have file_filled : file.toList.isEmpty = false := by simpa using named
  have apart : ¬[':', '.'] <:+: file.toList := unmarked
  unfold parseStyle
  rw [if_neg filled, text, cutAtMark_append apart]
  dsimp only
  rw [file_filled, some_, if_neg (by simp), words, String.ofList_toList]

/-- Element and style locators are read as what they were put together from, but for numbers that are too long and
selectors that are empty. What was read names a file, counts from one, and is read again from the wire as it is. -/
theorem locators_there_and_back :
    (∀ (file : String) (line column : Nat), file ≠ "" → 1 ≤ line → 1 ≤ column →
      parseElement (elementText file line column) =
        if line < 10 ^ Text.longestInteger ∧ column < 10 ^ Text.longestInteger then .ok (file, line, column)
        else .error ⟨elementText file line column, .notNumbers⟩) ∧
    (∀ (file : String) (selectors : List String), file ≠ "" → ¬":.".toList <:+: file.toList →
      (∃ first ∈ selectors.head?, first.toList.head? = some '.') →
      (∀ selector ∈ selectors, ∀ c ∈ selector.toList, Text.isBlank c = false) →
      parseStyle (styleText file selectors) = .ok (file, selectors.filter (· ≠ ""))) ∧
    (∀ (oid css : String) (l : SourceLocator), parse oid css = .ok l →
      l.file ≠ "" ∧ 1 ≤ l.line ∧ 1 ≤ l.column ∧ Wire.locator l.toJson = .ok l) := by
  refine ⟨?_, ?_, ?_⟩
  · intro file line column named first first'
    exact parseElement_written named first first'
  · intro file selectors named unmarked dot solid
    exact parseStyle_written named unmarked dot solid
  · intro oid css l read
    have sendable := sendable_of_parse read
    exact ⟨sendable.file, sendable.line, sendable.column, (Wire.locator_toJson_iff l).mpr sendable.toProper⟩

theorem solid_of_all {selectors : List String}
    (all : (selectors.all fun selector => selector.toList.all fun c => !Text.isBlank c) = true) :
    ∀ selector ∈ selectors, ∀ c ∈ selector.toList, Text.isBlank c = false := by
  intro selector listed c member
  have solid := List.all_eq_true.mp (List.all_eq_true.mp all selector listed) c member
  simpa using solid

/-- A file with a colon, a style file with a colon at its end, and two selectors. -/
theorem locators_there_and_back_drive :
    (("C:\\a.tsx" ≠ "" ∧ 1 ≤ 12 ∧ 1 ≤ 5) ∧ parseElement "C:\\a.tsx:12:5" = .ok ("C:\\a.tsx", 12, 5)) ∧
    (("a:" ≠ "" ∧ ¬":.".toList <:+: "a:".toList ∧ (∃ first ∈ [".a", "b:.c"].head?, first.toList.head? = some '.') ∧
      ∀ selector ∈ [".a", "b:.c"], ∀ c ∈ selector.toList, Text.isBlank c = false) ∧
      parseStyle "a::.a b:.c" = .ok ("a:", [".a", "b:.c"])) ∧
    (parse " : 1_0 :+5" "" = .ok ⟨" ", 10, 5, "", []⟩ ∧
      Wire.locator (SourceLocator.toJson ⟨" ", 10, 5, "", []⟩) = .ok ⟨" ", 10, 5, "", []⟩) := by
  obtain ⟨element, style, wire⟩ := locators_there_and_back
  have short (n : Nat) (few : n ≤ 12) : n < 10 ^ Text.longestInteger :=
    Nat.lt_of_lt_of_le (show n < 10 ^ 2 by omega) (Nat.pow_le_pow_right (by decide) (by decide))
  have unmarked : ¬":.".toList <:+: "a:".toList := by decide
  have solid : ∀ selector ∈ [".a", "b:.c"], ∀ c ∈ selector.toList, Text.isBlank c = false :=
    solid_of_all (by decide)
  refine ⟨⟨by decide, ?_⟩, ⟨⟨by decide, unmarked, by decide, solid⟩, ?_⟩, ?_⟩
  · have read := element "C:\\a.tsx" 12 5 (by decide) (by decide) (by decide)
    rw [if_pos ⟨short 12 (by omega), short 5 (by omega)⟩] at read
    exact read
  · exact style "a:" [".a", "b:.c"] (by decide) unmarked (by decide) solid
  · have read : parse " : 1_0 :+5" "" = .ok ⟨" ", 10, 5, "", []⟩ := by decide
    exact ⟨read, (wire _ _ _ read).2.2.2⟩

/-- An integer of more digits than can be read is refused, and an empty selector leaves nothing behind. -/
theorem locators_not_there_and_back :
    parseElement (elementText "a.tsx" (10 ^ Text.longestInteger) 1) =
      .error ⟨elementText "a.tsx" (10 ^ Text.longestInteger) 1, .notNumbers⟩ ∧
    parseStyle (styleText "a.css" [".a", ""]) = .ok ("a.css", [".a"]) := by
  constructor
  · have positive : 1 ≤ 10 ^ Text.longestInteger := Nat.pow_pos (by decide)
    rw [parseElement_written (by decide) positive (Nat.le_refl 1), if_neg fun both => Nat.lt_irrefl _ (And.left both)]
  · exact parseStyle_written (by decide) (by decide) (by decide) (solid_of_all (by decide))

end SourceLocator

end Retouch
