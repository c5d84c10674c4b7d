/-!
# Blank characters

Two sets of blanks are in use: the white space of every script, for trimming and splitting text,
and the six blanks of plain bytes, for indentation and spacing in a file. Main statement:
`blank_not_mem_words`, a word is not empty and holds no blank.
-/
namespace Retouch.Text

/-- White space of every script, with the separators that control characters stand for. -/
def isBlank (c : Char) : Bool :=
  let code := c.toNat
  (9 ≤ code && code ≤ 13) || (28 ≤ code && code ≤ 32) || code == 0x85 || code == 0xa0 ||
    code == 0x1680 || (0x2000 ≤ code && code ≤ 0x200a) || code == 0x2028 || code == 0x2029 ||
    code == 0x202f || code == 0x205f || code == 0x3000

/-- The blanks of plain bytes: space, tab, line feed, vertical tab, form feed, carriage return. -/
def isPlainBlank (c : Char) : Bool :=
  let code := c.toNat
  (9 ≤ code && code ≤ 13) || code == 32

section Trim

variable (blank : Char → Bool)

/-- The text without its leading characters of a class. -/
def trimStartBy (cs : List Char) : List Char := cs.dropWhile blank

/-- The text without its trailing characters of a class. -/
def trimEndBy (cs : List Char) : List Char := (cs.reverse.dropWhile blank).reverse

/-- The text without the characters of a class at either end. -/
def trimBy (cs : List Char) : List Char := trimEndBy blank (trimStartBy blank cs)

end Trim

def trimStart (cs : List Char) : List Char := trimStartBy isBlank cs
def trimEnd (cs : List Char) : List Char := trimEndBy isBlank cs
def trim (cs : List Char) : List Char := trimBy isBlank cs

/-- The blanks of the Unicode property White_Space; the four separators below U+0020 are none. -/
def isWhiteSpace (c : Char) : Bool := isBlank c && !(28 ≤ c.toNat && c.toNat ≤ 31)

/-- A text between blanks: without those at either end. -/
def trimmed (s : String) : String := String.ofList (trim s.toList)

/-- Nothing but blanks. -/
def allBlank (cs : List Char) : Bool := cs.all isBlank

/-- Splits at every run of blanks; `word` is the word so far, last character first. -/
def wordsFrom (word : List Char) : List Char → List (List Char)
  | [] => if word.isEmpty then [] else [word.reverse]
  | c :: rest =>
    if isBlank c then
      if word.isEmpty then wordsFrom [] rest else word.reverse :: wordsFrom [] rest
    else wordsFrom (c :: word) rest

/-- The maximal runs of characters that are not blank. -/
def words (cs : List Char) : List (List Char) := wordsFrom [] cs

/-- The words of a text with single spaces between them, as a page shows it. -/
def collapsed (cs : List Char) : List Char := [' '].intercalate (words cs)

/-- The shown form of a text. -/
def collapsedText (s : String) : String := String.ofList (collapsed s.toList)

theorem wordsFrom_blank (word cs : List Char) (clean : ∀ c ∈ word, isBlank c = false) :
    ∀ piece ∈ wordsFrom word cs, piece ≠ [] ∧ ∀ c ∈ piece, isBlank c = false := by
  induction cs generalizing word with
  | nil =>
    intro piece member
    by_cases empty : word.isEmpty
    · simp [wordsFrom, empty] at member
    · simp only [wordsFrom, empty, Bool.false_eq_true, if_false, List.mem_singleton] at member
      subst member
      refine ⟨by simpa using empty, fun c inside => clean c (by simpa using inside)⟩
  | cons first rest ih =>
    intro piece member
    by_cases blank : isBlank first
    · by_cases empty : word.isEmpty
      · rw [wordsFrom, if_pos blank, if_pos empty] at member
        exact ih [] (by simp) piece member
      · rw [wordsFrom, if_pos blank, if_neg empty, List.mem_cons] at member
        rcases member with rfl | member
        · refine ⟨by simpa using empty, fun c inside => clean c (by simpa using inside)⟩
        · exact ih [] (by simp) piece member
    · rw [wordsFrom, if_neg blank] at member
      refine ih (first :: word) (fun c inside => ?_) piece member
      rcases List.mem_cons.mp inside with rfl | inside
      · simpa using blank
      · exact clean c inside

theorem blank_not_mem_words (cs piece : List Char) (member : piece ∈ words cs) :
    piece ≠ [] ∧ ∀ c ∈ piece, isBlank c = false :=
  wordsFrom_blank [] cs (by simp) piece member

theorem dropWhile_dropWhile (blank : Char → Bool) (cs : List Char) :
    (cs.dropWhile blank).dropWhile blank = cs.dropWhile blank := by
  induction cs with
  | nil => rfl
  | cons c rest ih =>
    by_cases h : blank c
    · simp [h, ih]
    · simp [h]

theorem trimEndBy_trimEndBy (blank : Char → Bool) (cs : List Char) :
    trimEndBy blank (trimEndBy blank cs) = trimEndBy blank cs := by
  simp [trimEndBy, dropWhile_dropWhile]

end Retouch.Text
