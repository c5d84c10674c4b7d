import Retouch.Proofs.Style.Cut

/-!
# The parts of a text

What a text leaves open is told without reading it character by character: a text is its quoted strings and what stands
bare between them, and a parenthesis stays open when some end of the bare text has more opening than closing ones. The
parts of a text, joined again, are the text but for what splitting drops on purpose, and they split into themselves.

## Main statements

* `leavesOpen_iff`: the nesting behind a text is not that in front of it just if the text leaves something open.
* `Separator.split_again`: texts that hold no separator outside are the parts of what they are joined to.
* `split_loses_nothing`: splitting fails just on texts that leave something open, and loses nothing of all others.
-/
namespace Retouch.Style

open Retouch.Text Nesting

/-! ### What a text leaves open -/

def isQuote (c : Char) : Bool := c = '\'' || c = '"'

/-- A text is quoted strings and what stands bare between them; the quote is that of a string that does not end. -/
inductive Quoting : List Char → List Char → Option Char → Prop
  | nil : Quoting [] [] none
  | bare {c : Char} {cs bare : List Char} {quote : Option Char} (plain : isQuote c = false)
      (rest : Quoting cs bare quote) : Quoting (c :: cs) (c :: bare) quote
  | string {mark : Char} {inner cs bare : List Char} {quote : Option Char} (quotes : isQuote mark = true)
      (inside : mark ∉ inner) (rest : Quoting cs bare quote) : Quoting (mark :: (inner ++ mark :: cs)) bare quote
  | unended {mark : Char} {inner : List Char} (quotes : isQuote mark = true) (inside : mark ∉ inner) :
      Quoting (mark :: inner) [] (some mark)

/-- A quote or a parenthesis of a text is left open. A closing parenthesis closes one in front of it if there is one
open, so that one stays open just if more are opened than closed from some place on. -/
def LeavesOpen (cs : List Char) : Prop :=
  ∃ bare quote, Quoting cs bare quote ∧
    (quote.isSome ∨ ∃ tail, tail <:+ bare ∧ tail.count ')' < tail.count '(')

variable {cs bare : List Char} {quote : Option Char}

/-- Every text is made of quoted strings and bare characters. -/
theorem exists_quoting (cs : List Char) : ∃ bare quote, Quoting cs bare quote := by
  -- A string takes more than one character at a time, so the induction is on the length.
  induction length : cs.length using Nat.strongRecOn generalizing cs with
  | ind length ih =>
    subst length
    cases cs with
    | nil => exact ⟨[], none, .nil⟩
    | cons c cs =>
      by_cases quotes : isQuote c = true
      · by_cases ended : c ∈ cs
        · obtain ⟨inner, rest, rfl, inside⟩ := List.eq_append_cons_of_mem ended
          obtain ⟨bare, quote, read⟩ := ih rest.length (by simp; omega) rest rfl
          exact ⟨bare, quote, .string quotes inside read⟩
        · exact ⟨[], some c, .unended quotes ended⟩
      · obtain ⟨bare, quote, read⟩ := ih cs.length (by simp) cs rfl
        exact ⟨c :: bare, quote, .bare (by simpa using quotes) read⟩

namespace Nesting

variable {depth : Nat}

theorem after_quote {mark : Char} (quotes : isQuote mark = true) (depth : Nat) :
    (⟨none, depth⟩ : Nesting).after mark = ⟨some mark, depth⟩ := by
  have either : mark = '\'' ∨ mark = '"' := by simpa [isQuote] using quotes
  simp only [after, if_pos either]

/-- Inside quotes nothing counts but the quote that ends them. -/
theorem run_quoted {mark : Char} {inner : List Char} (inside : mark ∉ inner) (depth : Nat) :
    (⟨some mark, depth⟩ : Nesting).run inner = ⟨some mark, depth⟩ := by
  induction inner with
  | nil => rfl
  | cons c inner ih =>
    obtain ⟨other, inside⟩ := not_or.mp (mt List.mem_cons.mpr inside)
    have stays : (⟨some mark, depth⟩ : Nesting).after c = ⟨some mark, depth⟩ := if_neg fun same => other same.symm
    rw [run_cons, stays, ih inside]

/-- Bare characters open no quotes. -/
theorem after_bare {c : Char} (plain : isQuote c = false) (depth : Nat) :
    (⟨none, depth⟩ : Nesting).after c =
      ⟨none, if c = '(' then depth + 1 else if c = ')' then depth - 1 else depth⟩ := by
  have neither : ¬(c = '\'' ∨ c = '"') := by simpa [isQuote] using plain
  simp only [after, if_neg neither]
  split
  · rfl
  · split <;> rfl

end Nesting

/-- What stands bare has no quotes. -/
theorem Quoting.plain (read : Quoting cs bare quote) : ∀ c ∈ bare, isQuote c = false := by
  induction read with
  | nil => simp
  | bare plain _ ih => exact List.forall_mem_cons.mpr ⟨plain, ih⟩
  | string _ _ _ ih => exact ih
  | unended => simp

/-- The quote behind a text is that of its last string, and the parentheses are those of its bare characters. -/
theorem Quoting.run (read : Quoting cs bare quote) (depth : Nat) :
    (⟨none, depth⟩ : Nesting).run cs = { (⟨none, depth⟩ : Nesting).run bare with quote } := by
  induction read generalizing depth with
  | nil => rfl
  | bare plain _ ih =>
    rw [run_cons, run_cons, after_bare plain]
    exact ih _
  | @string mark inner _ _ _ quotes inside _ ih =>
    have ends : (⟨some mark, depth⟩ : Nesting).after mark = ⟨none, depth⟩ := if_pos rfl
    rw [run_cons, after_quote quotes, run_append, run_quoted inside, run_cons, ends]
    exact ih depth
  | unended quotes inside =>
    rw [run_cons, after_quote quotes, run_quoted inside]
    rfl

/-- From some depth on, bare text closes everything just if it closes what it opens from each place on, and from its
beginning also what was open before. -/
theorem depth_run_eq_zero_iff (plain : ∀ c ∈ bare, isQuote c = false) (depth : Nat) :
    ((⟨none, depth⟩ : Nesting).run bare).depth = 0 ↔
      (∀ tail, tail <:+ bare → tail.count '(' ≤ tail.count ')') ∧
        depth + bare.count '(' ≤ bare.count ')' := by
  induction bare generalizing depth with
  | nil => simp
  | cons c bare ih =>
    obtain ⟨here, later⟩ := List.forall_mem_cons.mp plain
    have tails : (∀ tail, tail <:+ c :: bare → tail.count '(' ≤ tail.count ')') ↔
        (c :: bare).count '(' ≤ (c :: bare).count ')' ∧ ∀ tail, tail <:+ bare → tail.count '(' ≤ tail.count ')' := by
      simp only [List.suffix_cons_iff, or_imp, forall_and, forall_eq]
    rw [run_cons, after_bare here, ih later, tails]
    by_cases opening : c = '('
    · subst opening
      simp only [if_true, List.count_cons_self, List.count_cons_of_ne (by decide : '(' ≠ ')')]
      constructor
      · rintro ⟨all, enough⟩
        exact ⟨⟨by omega, all⟩, by omega⟩
      · rintro ⟨⟨-, all⟩, enough⟩
        exact ⟨all, by omega⟩
    · by_cases closing : c = ')'
      · subst closing
        simp only [if_neg opening, if_true, List.count_cons_self, List.count_cons_of_ne (by decide : ')' ≠ '(')]
        constructor
        · rintro ⟨all, enough⟩
          exact ⟨⟨by omega, all⟩, by omega⟩
        · rintro ⟨⟨-, all⟩, enough⟩
          -- At depth zero the parenthesis closes nothing, and the whole rest is the tail that tells.
          have rest := all bare List.suffix_rfl
          exact ⟨all, by omega⟩
      · simp only [if_neg opening, if_neg closing, List.count_cons_of_ne opening, List.count_cons_of_ne closing]
        constructor
        · rintro ⟨all, enough⟩
          exact ⟨⟨by omega, all⟩, enough⟩
        · rintro ⟨⟨-, all⟩, enough⟩
          exact ⟨all, enough⟩

/-- Behind a text something is open just if the text leaves it open. -/
theorem leavesOpen_iff (cs : List Char) : LeavesOpen cs ↔ outside.run cs ≠ outside := by
  have told {bare : List Char} {quote : Option Char} (read : Quoting cs bare quote) :
      outside.run cs = outside ↔ quote = none ∧ ∀ tail, tail <:+ bare → tail.count '(' ≤ tail.count ')' := by
    have closes := depth_run_eq_zero_iff read.plain 0
    have whole : (∀ tail, tail <:+ bare → tail.count '(' ≤ tail.count ')') → 0 + bare.count '(' ≤ bare.count ')' :=
      fun all => by simpa using all bare List.suffix_rfl
    rw [outside, read.run 0, mk.injEq, closes, and_iff_left_of_imp whole]
  constructor
  · rintro ⟨bare, quote, read, quoted | ⟨tail, ends, more⟩⟩ closed
    · rw [((told read).mp closed).1] at quoted
      cases quoted
    · exact absurd (((told read).mp closed).2 tail ends) (by omega)
  · intro opened
    obtain ⟨bare, quote, read⟩ := exists_quoting cs
    refine ⟨bare, quote, read, Classical.byContradiction fun neither => opened ((told read).mpr ⟨?_, ?_⟩)⟩
    · exact Option.not_isSome_iff_eq_none.mp fun quoted => neither (.inl quoted)
    · exact fun tail ends => Nat.le_of_not_lt fun more => neither (.inr ⟨tail, ends, more⟩)

instance (cs : List Char) : Decidable (LeavesOpen cs) := decidable_of_iff _ (leavesOpen_iff cs).symm

theorem avoids_iff {p : Char → Bool} {n : Nesting} :
    avoids p n cs = true ↔ ∀ front c rest, cs = front ++ c :: rest → p c = true → n.run front ≠ outside := by
  induction cs generalizing n with
  | nil => simp [avoids]
  | cons d cs ih =>
    rw [avoids, Bool.and_eq_true, ih, Bool.not_eq_true', Bool.and_eq_false_imp, isOutside_iff]
    constructor
    · rintro ⟨here, later⟩ front c rest split cutter
      cases front with
      | nil =>
        obtain ⟨rfl, -⟩ := List.cons.inj split
        exact fun closed => Bool.false_ne_true ((here closed).symm.trans cutter)
      | cons e front =>
        obtain ⟨rfl, behind⟩ := List.cons.inj split
        exact later front c rest behind cutter
    · intro all
      constructor
      · exact fun closed => Bool.eq_false_iff.mpr fun cutter => all [] d cs rfl cutter closed
      · exact fun front c rest split => all (d :: front) c rest (congrArg (d :: ·) split)

/-- No character of a class stands outside just if everything in front of each such character leaves something open. -/
theorem avoids_outside_iff {p : Char → Bool} :
    avoids p outside cs = true ↔ ∀ front c rest, cs = front ++ c :: rest → p c = true → LeavesOpen front := by
  simp only [avoids_iff, leavesOpen_iff]

/-! ### The parts -/

/-- Pieces with one character of a class between each two of them make up a text. -/
inductive Joined (p : Char → Bool) : List Char → List (List Char) → Prop
  | last (piece : List Char) : Joined p piece [piece]
  | more {piece rest : List Char} {c : Char} {pieces : List (List Char)} (cutter : p c = true)
      (others : Joined p rest pieces) : Joined p (piece ++ c :: rest) (piece :: pieces)

theorem Cut.joined {p : Char → Bool} {raw : List (List Char)} (cut : Cut p cs raw) : Joined p cs raw := by
  induction cut with
  | last => exact .last _
  | more _ _ cutter _ ih => exact .more cutter ih

/-- The pieces of a text are found just if nothing is open behind it. -/
theorem pieces_eq_none_iff {separator : Separator} (inert : ∀ c, separator.matches c = true → isInert c = true)
    {n : Nesting} (sound : n.Sound) : pieces separator n cs = none ↔ n.run cs ≠ outside := by
  induction cs generalizing n with
  | nil =>
    rw [pieces, run_nil, ne_eq, ← isOutside_iff]
    split <;> simp_all
  | cons c cs ih =>
    rw [pieces, separates_iff inert, run_cons]
    split
    next cuts =>
      have cutter := (Bool.and_eq_true _ _).mp cuts
      rw [after_inert sound (inert c cutter.2), Option.map_eq_none_iff, ih sound]
    next => rw [Option.map_eq_none_iff, ih (sound.after c)]

/-- A separator is a space, which stands for any blank, or one character; quotes and parentheses are none. -/
structure Separating (separator : Separator) (c : Char) : Prop where
  cutter : separator.matches c = true
  inert : ∀ d, separator.matches d = true → isInert d = true

theorem separating_ofText {c : Char} (unmarked : c ∉ ['\'', '"', '(', ')']) :
    Separating (.ofText (String.singleton c)) c := by
  by_cases space : c = ' '
  · subst space
    exact ⟨rfl, fun _ blank => inert_of_blank blank⟩
  · have told : Separator.ofText (String.singleton c) = .char c := by
      unfold Separator.ofText
      rw [String.toList_singleton]
      split
      · simp_all
      · simp_all
      · simp_all
    rw [told]
    refine ⟨decide_eq_true rfl, fun d same => ?_⟩
    rw [of_decide_eq_true same]
    simpa [isInert, and_assoc] using unmarked

namespace Separator

variable {separator : Separator} {pieces parts : List (List Char)}

/-- The parts of a text: the text is made of them and of separators, up to what is not kept; each part closes what it
opens, and no separator stands outside of quotes and parentheses in it. -/
structure Parted (separator : Separator) (cs : List Char) (parts : List (List Char)) : Prop where
  joined : ∃ pieces, Joined separator.matches cs pieces ∧ parts = separator.keep pieces
  closed : ∀ part ∈ parts, ¬LeavesOpen part
  whole : ∀ part ∈ parts, ∀ front c rest, part = front ++ c :: rest → separator.matches c = true → LeavesOpen front

theorem keep_keep (pieces : List (List Char)) : separator.keep (separator.keep pieces) = separator.keep pieces := by
  cases separator with
  | blank => simp [keep]
  | char | never => simp [keep, trim_trim, Function.comp_def]

/-- What holds of pieces, and of these without the blanks around them, holds of what is kept of them. -/
theorem forall_keep {p : List Char → Prop} (trimmed : ∀ piece, p piece → p (trim piece))
    (all : ∀ piece ∈ pieces, p piece) : ∀ part ∈ separator.keep pieces, p part := by
  cases separator with
  | blank => exact fun part member => all part (List.mem_filter.mp member).1
  | char | never =>
    intro part member
    obtain ⟨piece, among, rfl⟩ := List.mem_map.mp member
    exact trimmed piece (all piece among)

/-- The kept pieces of a cut end outside, and no separator stands outside in them. -/
theorem each_of_cut (cut : Cut separator.matches cs pieces) : ∀ part ∈ separator.keep pieces,
    avoids separator.matches outside part = true ∧ outside.run part = outside := by
  refine forall_keep (fun piece told => ?_) cut.each
  exact ⟨avoids_trim Sound.outside told.1, (run_trim Sound.outside piece).trans told.2⟩

section Splitting

variable {c : Char} (separating : Separating separator c)

include separating

/-- A text cannot be split just if it leaves something open. -/
theorem split_eq_none_iff : splitTopLevel separator cs = none ↔ LeavesOpen cs := by
  rw [splitTopLevel, Option.map_eq_none_iff, pieces_eq_none_iff separating.inert Sound.outside, leavesOpen_iff]

theorem parted_of_split (found : splitTopLevel separator cs = some parts) : Parted separator cs parts := by
  obtain ⟨raw, cut, rfl⟩ := (splitTopLevel_iff separating.inert cs parts).mp found
  have each := each_of_cut cut
  constructor
  · exact ⟨raw, cut.joined, rfl⟩
  · exact fun part member opened => (leavesOpen_iff part).mp opened (each part member).2
  · exact fun part member => avoids_outside_iff.mp (each part member).1

/-- The parts of a text are the parts of what they are joined to. -/
theorem split_again (found : splitTopLevel separator cs = some parts) :
    splitTopLevel separator ([c].intercalate parts) = some parts := by
  obtain ⟨raw, cut, rfl⟩ := (splitTopLevel_iff separating.inert cs parts).mp found
  by_cases none : separator.keep raw = []
  · -- Only pieces between blanks are dropped, and the empty text has no others.
    rw [none]
    cases separator with
    | blank => rfl
    | char | never => exact absurd (List.map_eq_nil_iff.mp none) cut.ne_nil
  · refine (splitTopLevel_iff separating.inert _ _).mpr ⟨_, ?_, (keep_keep raw).symm⟩
    exact Cut.of_parts separating.cutter none (each_of_cut cut)

end Splitting

end Separator

open Separator

/-- Cut at a space, which stands for any run of blanks, or at a character other than quotes and parentheses, a text is
refused just if it leaves a quote or a parenthesis open. Otherwise it is made of its parts and of separators, up to the
blanks around parts and to empty parts between blanks; no part has a separator outside of quotes and parentheses, and
the parts joined by the separator have the same parts. -/
theorem split_loses_nothing (c : Char) (unmarked : c ∉ ['\'', '"', '(', ')']) (value : String) :
    (LeavesOpen value.toList → split (.ofText (String.singleton c)) value = .error ⟨value⟩) ∧
    (¬LeavesOpen value.toList → ∃ parts : List String,
      split (.ofText (String.singleton c)) value = .ok parts ∧
      Parted (.ofText (String.singleton c)) value.toList (parts.map String.toList) ∧
      split (.ofText (String.singleton c)) ((String.singleton c).intercalate parts) = .ok parts) := by
  have separating := separating_ofText unmarked
  generalize Separator.ofText (String.singleton c) = separator at separating
  constructor
  · intro opened
    rw [split, (split_eq_none_iff separating).mpr opened]
  · intro closed
    obtain ⟨parts, found⟩ := Option.ne_none_iff_exists'.mp (mt (split_eq_none_iff separating).mp closed)
    have texts : (parts.map String.ofList).map String.toList = parts := by simp [Function.comp_def]
    refine ⟨parts.map String.ofList, by rw [split, found], ?_, ?_⟩
    · rw [texts]
      exact parted_of_split separating found
    · rw [split, String.toList_intercalate, texts, String.toList_singleton, split_again separating found]

/-- A list with a function, a closing parenthesis that closes nothing and a quoted comma has three parts. -/
theorem split_loses_nothing_list :
    ',' ∉ ['\'', '"', '(', ')'] ∧ ¬LeavesOpen "a, f(b, c) ) ,'d,(e'".toList ∧
      ∃ parts : List String, split (.ofText ",") "a, f(b, c) ) ,'d,(e'" = .ok parts ∧
        Parted (.ofText ",") "a, f(b, c) ) ,'d,(e'".toList (parts.map String.toList) ∧
        split (.ofText ",") (",".intercalate parts) = .ok parts :=
  ⟨by decide, by decide, (split_loses_nothing ',' (by decide) "a, f(b, c) ) ,'d,(e'").2 (by decide)⟩

end Retouch.Style
