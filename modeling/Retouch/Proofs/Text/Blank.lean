import Retouch.Text.Blank

/-!
# Trimmed texts

## Main statements

* `trim_split`: a text is its trimmed form between blanks.
* `trim_eq_self_iff`: trimming changes nothing exactly when no blank stands at either end.
* `words_eq_of_collapsed`: texts that are shown alike have the same words.
-/
namespace Retouch.Text

/-- Every blank. -/
def blanks : List Char :=
  [9, 10, 11, 12, 13, 28, 29, 30, 31, 32, 0x85, 0xa0, 0x1680, 0x2000, 0x2001, 0x2002, 0x2003, 0x2004,
    0x2005, 0x2006, 0x2007, 0x2008, 0x2009, 0x200a, 0x2028, 0x2029, 0x202f, 0x205f, 0x3000].map Char.ofNat

theorem mem_blanks {c : Char} (blank : isBlank c = true) : c ∈ blanks := by
  refine List.mem_map.mpr ⟨c.toNat, ?_, by simp⟩
  simp only [isBlank, Bool.or_eq_true, Bool.and_eq_true, decide_eq_true_eq, beq_iff_eq] at blank
  simp only [List.mem_cons, List.not_mem_nil, or_false]
  omega

/-- What holds of every blank of the table holds of a blank. -/
theorem of_blank {p : Char → Bool} (all : blanks.all p = true) {c : Char} (blank : isBlank c = true) :
    p c = true := List.all_eq_true.mp all c (mem_blanks blank)

theorem blank_of_plainBlank {c : Char} (plain : isPlainBlank c = true) : isBlank c = true := by
  simp only [isPlainBlank, isBlank, Bool.or_eq_true, Bool.and_eq_true, decide_eq_true_eq, beq_iff_eq] at plain ⊢
  omega

theorem blank_space : ∀ c ∈ [' '], isBlank c = true := by
  intro c member
  rw [List.mem_singleton.mp member]
  rfl

theorem plainBlank_space : ∀ c ∈ [' '], isPlainBlank c = true := List.forall_mem_singleton.mpr rfl

/-- No blank stands at either end. -/
structure Bare (cs : List Char) : Prop where
  first : ∀ c ∈ cs.head?, isBlank c = false
  last : ∀ c ∈ cs.getLast?, isBlank c = false

theorem Bare.nil : Bare [] := ⟨by simp, by simp⟩

/-- Blanks in front are dropped, whatever follows. -/
theorem dropWhile_blanks {gap rest : List Char} (blank : ∀ c ∈ gap, isBlank c = true) :
    (gap ++ rest).dropWhile isBlank = rest.dropWhile isBlank := by
  induction gap with
  | nil => rfl
  | cons c gap ih =>
    rw [List.cons_append, List.dropWhile_cons_of_pos (blank c (by simp))]
    exact ih fun d member => blank d (by simp [member])

theorem dropWhile_eq_self {cs : List Char} (first : ∀ c ∈ cs.head?, isBlank c = false) :
    cs.dropWhile isBlank = cs := by
  cases cs with
  | nil => rfl
  | cons c rest => exact List.dropWhile_cons_of_neg (by simp [first c (by simp)])

/-- What is left after blanks are dropped starts with none. -/
theorem head?_dropWhile (cs : List Char) :
    ∀ c ∈ (cs.dropWhile isBlank).head?, isBlank c = false := by
  induction cs with
  | nil => simp
  | cons d rest ih =>
    by_cases blank : isBlank d = true
    · rw [List.dropWhile_cons_of_pos blank]
      exact ih
    · rw [List.dropWhile_cons_of_neg blank]
      simpa using blank

/-- The dropped blanks and what is left make up the text. -/
theorem dropWhile_split (cs : List Char) :
    ∃ gap, (∀ c ∈ gap, isBlank c = true) ∧ cs = gap ++ cs.dropWhile isBlank := by
  refine ⟨cs.takeWhile isBlank, fun c member => ?_, List.takeWhile_append_dropWhile.symm⟩
  have all := List.all_takeWhile (p := isBlank) (l := cs)
  exact List.all_eq_true.mp all c member

theorem trimEnd_split (cs : List Char) :
    ∃ gap, (∀ c ∈ gap, isBlank c = true) ∧ cs = trimEnd cs ++ gap := by
  obtain ⟨gap, blank, eq⟩ := dropWhile_split cs.reverse
  refine ⟨gap.reverse, fun c member => blank c (by simpa using member), ?_⟩
  have := congrArg List.reverse eq
  simpa [trimEnd, trimEndBy] using this

theorem trimEnd_eq_self {cs : List Char} (last : ∀ c ∈ cs.getLast?, isBlank c = false) :
    trimEnd cs = cs := by
  have reversed : cs.reverse.dropWhile isBlank = cs.reverse :=
    dropWhile_eq_self (by simpa using last)
  simp [trimEnd, trimEndBy, reversed]

theorem getLast?_trimEnd (cs : List Char) : ∀ c ∈ (trimEnd cs).getLast?, isBlank c = false := by
  simpa [trimEnd, trimEndBy] using head?_dropWhile cs.reverse

theorem trim_eq (cs : List Char) : trim cs = trimEnd (cs.dropWhile isBlank) := rfl

/-- A text is its trimmed form between blanks. -/
theorem trim_split (cs : List Char) :
    ∃ before after, (∀ c ∈ before, isBlank c = true) ∧ (∀ c ∈ after, isBlank c = true) ∧
      cs = before ++ trim cs ++ after := by
  obtain ⟨before, blank, eq⟩ := dropWhile_split cs
  obtain ⟨after, blank', eq'⟩ := trimEnd_split (cs.dropWhile isBlank)
  refine ⟨before, after, blank, blank', ?_⟩
  rw [trim_eq, List.append_assoc, ← eq', ← eq]

theorem bare_trim (cs : List Char) : Bare (trim cs) := by
  refine ⟨?_, getLast?_trimEnd _⟩
  intro c found
  obtain ⟨after, _, eq⟩ := trimEnd_split (cs.dropWhile isBlank)
  refine head?_dropWhile cs c ?_
  rw [eq, List.head?_append, ← trim_eq, Option.mem_def.mp found]
  rfl

theorem trim_of_bare {cs : List Char} (bare : Bare cs) : trim cs = cs := by
  rw [trim_eq, dropWhile_eq_self bare.first, trimEnd_eq_self bare.last]

theorem trim_eq_self_iff (cs : List Char) : trim cs = cs ↔ Bare cs :=
  ⟨fun eq => eq ▸ bare_trim cs, trim_of_bare⟩

theorem trim_trim (cs : List Char) : trim (trim cs) = trim cs := trim_of_bare (bare_trim cs)

/-- Blanks in front make no difference to the trimmed form. -/
theorem trim_blanks {gap rest : List Char} (blank : ∀ c ∈ gap, isBlank c = true) :
    trim (gap ++ rest) = trim rest := by
  rw [trim_eq, trim_eq, dropWhile_blanks blank]

theorem trimEnd_append_cons {c : Char} (solid : isBlank c = false) (front rest : List Char) :
    trimEnd (front ++ c :: rest) = front ++ c :: trimEnd rest := by
  unfold trimEnd trimEndBy
  have kept : (c :: front.reverse).dropWhile isBlank = c :: front.reverse := List.dropWhile_cons_of_neg (by simp [solid])
  rw [List.reverse_append, List.reverse_cons, List.append_assoc, List.singleton_append, List.dropWhile_append]
  split
  next none => simp [kept, List.isEmpty_iff.mp none]
  next => simp

/-- What is not blank is not trimmed. -/
theorem mem_trim {cs : List Char} {c : Char} (member : c ∈ cs) (solid : isBlank c = false) : c ∈ trim cs := by
  obtain ⟨before, after, blank, blank', eq⟩ := trim_split cs
  rw [eq, List.mem_append, List.mem_append] at member
  rcases member with (front | inside) | behind
  · rw [blank c front] at solid
    cases solid
  · exact inside
  · rw [blank' c behind] at solid
    cases solid

theorem mem_intercalate {α : Type} {between : List α} {parts : List (List α)} {a : α}
    (inside : a ∈ between.intercalate parts) : a ∈ between ∨ ∃ part ∈ parts, a ∈ part := by
  induction parts with
  | nil => simp at inside
  | cons part parts ih =>
    cases parts with
    | nil => exact .inr ⟨part, by simp, by simpa using inside⟩
    | cons next parts =>
      rw [List.intercalate_cons_of_ne_nil (by simp), List.append_assoc, List.mem_append, List.mem_append] at inside
      rcases inside with here | inside | inside
      · exact .inr ⟨part, by simp, here⟩
      · exact .inl inside
      · rcases ih inside with inside | ⟨other, member, inside⟩
        · exact .inl inside
        · exact .inr ⟨other, by simp [member], inside⟩

/-- What begins and ends without a blank does so when it is put together. -/
theorem bare_intercalate {parts : List (List Char)} (gap : List Char) (filled : parts ≠ [])
    (each : ∀ part ∈ parts, part ≠ [] ∧ Bare part) :
    gap.intercalate parts ≠ [] ∧ Bare (gap.intercalate parts) := by
  induction parts with
  | nil => exact absurd rfl filled
  | cons part parts ih =>
    obtain ⟨⟨some_, bare⟩, each⟩ := List.forall_mem_cons.mp each
    by_cases more : parts = []
    · subst more
      rw [List.intercalate_singleton]
      exact ⟨some_, bare⟩
    · obtain ⟨some_', bare'⟩ := ih more each
      rw [List.intercalate_cons_of_ne_nil more]
      refine ⟨by simp [some_], fun c found => bare.first c ?_, fun c found => bare'.last c ?_⟩
      · obtain ⟨d, rest, rfl⟩ := List.exists_cons_of_ne_nil some_
        exact found
      · rw [List.getLast?_append, List.getLast?_eq_some_getLast some_'] at found
        rw [List.getLast?_eq_some_getLast some_']
        exact found

/-! ### Words -/

variable {word cs gap xs ys : List Char} {c : Char}

/-- Blanks in front make no difference to the words. -/
theorem words_blanks (blank : ∀ c ∈ gap, isBlank c = true) (cs : List Char) : words (gap ++ cs) = words cs := by
  induction gap with
  | nil => rfl
  | cons c gap ih =>
    rw [words, List.cons_append, wordsFrom, if_pos (blank c List.mem_cons_self)]
    exact ih fun d member => blank d (List.mem_cons_of_mem _ member)

theorem words_of_blank (blank : ∀ c ∈ gap, isBlank c = true) : words gap = [] := by
  have same := words_blanks blank []
  rwa [List.append_nil] at same

/-- Blanks behind make no difference to the words. -/
theorem words_append_blanks (blank : ∀ c ∈ gap, isBlank c = true) (cs : List Char) :
    words (cs ++ gap) = words cs := by
  suffices all : ∀ word, wordsFrom word (cs ++ gap) = wordsFrom word cs from all []
  induction cs with
  | nil =>
    intro word
    cases gap with
    | nil => rfl
    | cons c gap =>
      have none : wordsFrom [] gap = [] := words_of_blank fun d member => blank d (List.mem_cons_of_mem _ member)
      rw [List.nil_append, wordsFrom, wordsFrom, if_pos (blank c List.mem_cons_self), none]
  | cons c cs ih =>
    intro word
    rw [List.cons_append, wordsFrom, wordsFrom, ih, ih]

/-- Texts that are shown alike have the same words. -/
theorem words_eq_of_collapsed (same : collapsed xs = collapsed ys) : words xs = words ys := by
  have split (cs : List Char) (some_ : words cs ≠ []) : (collapsed cs).splitOn ' ' = words cs := by
    refine List.splitOn_intercalate ' ' (fun piece member space => ?_) some_
    have blank := (blank_not_mem_words cs piece member).2 ' ' space
    cases blank
  have none (cs : List Char) : collapsed cs = [] ↔ words cs = [] := by
    constructor
    · intro empty
      rcases eq : words cs with _ | ⟨piece, rest⟩
      · rfl
      · have filled := (blank_not_mem_words cs piece (by simp [eq])).1
        rw [collapsed, eq] at empty
        cases rest <;> simp_all [List.intercalate, List.intersperse]
    · intro empty
      rw [collapsed, empty]
      rfl
  by_cases empty : words xs = []
  · rw [empty, (none ys).mp (same ▸ (none xs).mpr empty)]
  · rw [← split xs empty, same, split ys fun empty' => empty ((none xs).mp (same ▸ (none ys).mpr empty'))]

/-- The words of a text, joined, are its characters that are not blank. -/
theorem flatten_words (cs : List Char) : (words cs).flatten = cs.filter fun c => !isBlank c := by
  suffices all : ∀ word, (wordsFrom word cs).flatten = word.reverse ++ cs.filter fun c => !isBlank c from all []
  induction cs with
  | nil =>
    intro word
    rw [wordsFrom]
    split
    · simp_all
    · simp
  | cons c cs ih =>
    intro word
    rw [wordsFrom]
    by_cases blank : isBlank c = true
    · rw [if_pos blank, List.filter_cons_of_neg (by simp [blank])]
      split
      · simp_all
      · rw [List.flatten_cons, ih]
        rfl
    · rw [if_neg blank, ih, List.filter_cons_of_pos (by simpa using blank)]
      simp

/-- A text consists of its words and of blanks. -/
theorem mem_words (member : c ∈ cs) (solid : isBlank c = false) : ∃ word ∈ words cs, c ∈ word := by
  refine List.mem_flatten.mp ?_
  rw [flatten_words]
  exact List.mem_filter.mpr ⟨member, by simp [solid]⟩

/-- The characters of the words are those of the text. -/
theorem mem_of_mem_words (there : word ∈ words cs) (member : c ∈ word) : c ∈ cs := by
  have inside := List.mem_flatten.mpr ⟨word, there, member⟩
  rw [flatten_words] at inside
  exact (List.mem_filter.mp inside).1

/-- A word goes on as long as no blank comes. -/
theorem wordsFrom_solid {piece : List Char} (solid : ∀ c ∈ piece, isBlank c = false) (word rest : List Char) :
    wordsFrom word (piece ++ rest) = wordsFrom (piece.reverse ++ word) rest := by
  induction piece generalizing word with
  | nil => rfl
  | cons c piece ih =>
    rw [List.cons_append, wordsFrom, if_neg (by simp [solid c List.mem_cons_self]),
      ih fun d member => solid d (List.mem_cons_of_mem _ member)]
    simp

/-- Words with a space between them are told apart; of empty ones nothing is left. -/
theorem words_intercalate {pieces : List (List Char)} (solid : ∀ piece ∈ pieces, ∀ c ∈ piece, isBlank c = false) :
    words ([' '].intercalate pieces) = pieces.filter (· ≠ []) := by
  induction pieces with
  | nil => rfl
  | cons piece pieces ih =>
    have here := solid piece List.mem_cons_self
    have ih := ih fun other member => solid other (List.mem_cons_of_mem _ member)
    -- Behind the piece the words either end or go on after a space.
    have ends (rest : List Char) (blank : rest = [] ∨ ∃ more, rest = ' ' :: more) :
        words (piece ++ rest) = (if piece ≠ [] then [piece] else []) ++ words rest := by
      rw [words, wordsFrom_solid here, List.append_nil]
      rcases blank with rfl | ⟨more, rfl⟩
      · cases piece <;> simp [wordsFrom, words]
      · have space : isBlank ' ' = true := rfl
        cases piece <;> simp [wordsFrom, words, space]
    cases pieces with
    | nil =>
      have last := ends [] (.inl rfl)
      rw [List.append_nil] at last
      rw [List.intercalate_singleton, last]
      cases piece <;> simp [words, wordsFrom]
    | cons next pieces =>
      have gap (cs : List Char) : words (' ' :: cs) = words cs := words_blanks blank_space cs
      rw [List.intercalate_cons_cons, List.append_assoc, List.singleton_append, ends _ (.inr ⟨_, rfl⟩), gap, ih]
      cases piece <;> simp

end Retouch.Text
