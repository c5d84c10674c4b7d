import Retouch.Proofs.Text.Blank
import Retouch.Style.Reader
import Retouch.Style.Split

/-!
# Cuts outside parentheses and quotes

Where a text is cut depends on the nesting in front of each character. Two facts carry everything
below: characters that are neither quotes nor parentheses leave the nesting alone, and one more open
parenthesis makes no difference except that a closing one without an opening one uses it up.

The parts of a text are a relation beside the function that finds them, and putting the parts together
again changes nothing of the nesting.

## Main statements

* `run_deeper`: the nesting behind a text that is read one parenthesis further in.
* `avoids_deeper`: what does not stand outside does not stand outside further in.
* `pieces_iff`: the pieces of a text are the parts of a cut.
* `split_solid`: texts that cannot be cut, with blanks between them, are cut into just these texts.
* `Spaced.of_cut`: a trimmed text is its tokens with blanks between them.
* `Cut.rejoin`: parts that are trimmed and joined with commas are the parts of the joined text.
-/
namespace Retouch.Style

open Retouch.Text

/-- A character that is neither a quote nor a parenthesis. -/
def isInert (c : Char) : Bool := !(c = '\'' || c = '"' || c = '(' || c = ')')

theorem inert_of_blank {c : Char} (blank : isBlank c = true) : isInert c = true := by
  rw [isInert, Bool.not_eq_true', ← Bool.not_eq_true]
  intro mark
  simp only [Bool.or_eq_true, decide_eq_true_eq, or_assoc] at mark
  rcases mark with rfl | rfl | rfl | rfl <;> revert blank <;> decide

theorem inert_comma : isInert ',' = true := by decide

namespace Nesting

theorem isOutside_iff (n : Nesting) : n.isOutside = true ↔ n = outside := by
  obtain ⟨quote, depth⟩ := n
  cases quote <;> simp [isOutside, outside]

/-- Only quotes are waited for. -/
def Sound (n : Nesting) : Prop := ∀ quote ∈ n.quote, quote = '\'' ∨ quote = '"'

theorem Sound.outside : outside.Sound := by intro quote found; cases found

theorem Sound.after {n : Nesting} (sound : n.Sound) (c : Char) : (n.after c).Sound := by
  intro quote found
  unfold Nesting.after at found
  split at found
  next opened inside =>
    split at found
    · cases found
    · exact sound quote (by simpa [inside] using found)
  next none =>
    split at found
    next isQuote =>
      simp only [Option.mem_def, Option.some.injEq] at found
      exact found ▸ isQuote
    next =>
      refine sound quote ?_
      split at found
      · exact found
      · split at found <;> exact found

/-- Neither a quote nor a parenthesis: the nesting stays. -/
theorem after_inert {n : Nesting} (sound : n.Sound) {c : Char} (inert : isInert c = true) :
    n.after c = n := by
  simp only [isInert, Bool.not_eq_true', Bool.or_eq_false_iff, decide_eq_false_iff_not] at inert
  obtain ⟨⟨⟨single, double⟩, opening⟩, closing⟩ := inert
  unfold Nesting.after
  split
  next quote inside =>
    have other : c ≠ quote := by
      rcases sound quote inside with rfl | rfl
      · exact single
      · exact double
    rw [if_neg other]
  next => rw [if_neg (by simp [single, double]), if_neg opening, if_neg closing]

/-! ### Whole texts -/

/-- The nesting behind a text. -/
def run (n : Nesting) (cs : List Char) : Nesting := cs.foldl after n

@[simp] theorem run_nil (n : Nesting) : n.run [] = n := rfl

@[simp] theorem run_cons (n : Nesting) (c : Char) (cs : List Char) :
    n.run (c :: cs) = (n.after c).run cs := rfl

@[simp] theorem run_append (n : Nesting) (a b : List Char) : n.run (a ++ b) = (n.run a).run b :=
  List.foldl_append

theorem Sound.run {n : Nesting} (sound : n.Sound) (cs : List Char) : (n.run cs).Sound := by
  induction cs generalizing n with
  | nil => exact sound
  | cons c rest ih => exact ih (sound.after c)

theorem run_inert {n : Nesting} (sound : n.Sound) {cs : List Char}
    (inert : ∀ c ∈ cs, isInert c = true) : n.run cs = n := by
  induction cs with
  | nil => rfl
  | cons c rest ih =>
    rw [run_cons, after_inert sound (inert c (by simp))]
    exact ih fun d member => inert d (by simp [member])

/-- No character of a class stands outside quotes and parentheses. -/
def avoids (p : Char → Bool) : Nesting → List Char → Bool
  | _, [] => true
  | n, c :: rest => !(n.isOutside && p c) && avoids p (n.after c) rest

/-- No parenthesis is closed that was not opened. -/
abbrev calm : Nesting → List Char → Bool := avoids (· = ')')

@[simp] theorem avoids_append (p : Char → Bool) (n : Nesting) (a b : List Char) :
    avoids p n (a ++ b) = (avoids p n a && avoids p (n.run a) b) := by
  induction a generalizing n with
  | nil => simp [avoids]
  | cons c rest ih => simp [avoids, ih, Bool.and_assoc]

theorem avoids_or (p q : Char → Bool) (n : Nesting) (cs : List Char) :
    avoids (fun c => p c || q c) n cs = (avoids p n cs && avoids q n cs) := by
  induction cs generalizing n with
  | nil => rfl
  | cons c rest ih =>
    simp only [avoids, ih]
    cases n.isOutside <;> cases p c <;> cases q c <;>
      cases avoids p (n.after c) rest <;> cases avoids q (n.after c) rest <;> rfl

theorem avoids_of_none {p : Char → Bool} {cs : List Char} (none : ∀ c ∈ cs, p c = false)
    (n : Nesting) : avoids p n cs = true := by
  induction cs generalizing n with
  | nil => rfl
  | cons c rest ih =>
    simp only [avoids, none c (by simp), Bool.and_false, Bool.not_false, Bool.true_and]
    exact ih (fun d member => none d (by simp [member])) _

/-! ### One parenthesis further in -/

/-- One parenthesis further in. -/
def deeper (n : Nesting) : Nesting := { n with depth := n.depth + 1 }

theorem Sound.deeper {n : Nesting} (sound : n.Sound) : n.deeper.Sound := sound

@[simp] theorem isOutside_deeper (n : Nesting) : n.deeper.isOutside = false := by
  simp [isOutside, deeper]

/-- An extra parenthesis is used up by a closing one that stands outside, and by nothing else. -/
theorem after_deeper (n : Nesting) (c : Char) :
    n.deeper.after c = if n.isOutside && c = ')' then n else (n.after c).deeper := by
  obtain ⟨quote, depth⟩ := n
  cases quote with
  | some quote =>
    by_cases same : c = quote <;> simp [after, deeper, isOutside, same]
  | none =>
    by_cases isQuote : c = '\'' ∨ c = '"'
    · rcases isQuote with rfl | rfl <;> simp [after, deeper]
    · by_cases opening : c = '('
      · simp [after, deeper, opening]
      · by_cases closing : c = ')'
        · cases depth <;> simp [after, deeper, isOutside, closing]
        · simp [after, deeper, isQuote, opening, closing]

/-- The nesting behind a text that is read one parenthesis further in. -/
theorem run_deeper (n : Nesting) (cs : List Char) :
    n.deeper.run cs = if calm n cs then (n.run cs).deeper else n.run cs := by
  induction cs generalizing n with
  | nil => rfl
  | cons c rest ih =>
    rw [run_cons, after_deeper, run_cons]
    by_cases stray : n.isOutside && c = ')'
    · have same : n.after c = n := by
        simp only [Bool.and_eq_true, decide_eq_true_eq] at stray
        rw [(isOutside_iff n).mp stray.1, stray.2]
        rfl
      rw [if_pos stray, same, if_neg]
      simp only [calm, avoids, stray, Bool.not_true, Bool.false_and]
      simp
    · rw [if_neg stray, ih]
      have kept : (n.isOutside && decide (c = ')')) = false := by simpa using stray
      simp only [calm, avoids, kept, Bool.not_false, Bool.true_and]

/-- What does not stand outside does not stand outside further in. -/
theorem avoids_deeper {p : Char → Bool} {n : Nesting} {cs : List Char}
    (clean : avoids p n cs = true) : avoids p n.deeper cs = true := by
  induction cs generalizing n with
  | nil => rfl
  | cons c rest ih =>
    simp only [avoids, Bool.and_eq_true] at clean
    simp only [avoids, isOutside_deeper, Bool.false_and, Bool.not_false, Bool.true_and]
    rw [after_deeper]
    split
    next stray =>
      have same : n.after c = n := by
        simp only [Bool.and_eq_true, decide_eq_true_eq] at stray
        rw [(isOutside_iff n).mp stray.1, stray.2]
        rfl
      exact same ▸ clean.2
    next => exact ih clean.2

/-- Inside a parenthesis that stays open nothing stands outside. -/
theorem avoids_deeper_of_calm {n : Nesting} {cs : List Char} (quiet : calm n cs = true)
    (p : Char → Bool) : avoids p n.deeper cs = true := by
  induction cs generalizing n with
  | nil => rfl
  | cons c rest ih =>
    simp only [calm, avoids, Bool.and_eq_true, Bool.not_eq_true'] at quiet
    simp only [avoids, isOutside_deeper, Bool.false_and, Bool.not_false, Bool.true_and]
    rw [after_deeper, quiet.1]
    exact ih quiet.2

end Nesting

open Nesting

/-- A text is cut at characters of a class into parts that each end outside. -/
inductive Cut (p : Char → Bool) : List Char → List (List Char) → Prop
  | last {part : List Char} (whole : avoids p outside part = true)
      (closed : outside.run part = outside) : Cut p part [part]
  | more {part rest : List Char} {c : Char} {parts : List (List Char)}
      (whole : avoids p outside part = true) (closed : outside.run part = outside)
      (cutter : p c = true) (others : Cut p rest parts) : Cut p (part ++ c :: rest) (part :: parts)

def isComma (c : Char) : Bool := c = ','

theorem inert_of_comma {c : Char} (comma : isComma c = true) : isInert c = true := by
  rw [of_decide_eq_true comma]
  exact inert_comma

/-! ### The pieces of a text -/

section Pieces

variable {separator : Separator}
  (inert : ∀ c, separator.matches c = true → isInert c = true)

include inert

theorem separates_iff (n : Nesting) (c : Char) :
    n.separates separator c = (n.isOutside && separator.matches c) := by
  unfold separates
  cases cutter : separator.matches c with
  | false => simp
  | true =>
    have kept := inert c cutter
    unfold isInert at kept
    simp [kept]

theorem cut_of_pieces {n : Nesting} {cs : List Char} {parts : List (List Char)}
    (found : pieces separator n cs = some parts) :
    ∃ part others, parts = part :: others ∧ avoids separator.matches n part = true ∧
      n.run part = outside ∧
      (others = [] ∧ cs = part ∨ ∃ c rest, cs = part ++ c :: rest ∧ separator.matches c = true ∧
        Cut separator.matches rest others) := by
  induction cs generalizing n parts with
  | nil =>
    simp only [pieces] at found
    split at found
    next ended =>
      cases found
      exact ⟨[], [], rfl, rfl, (isOutside_iff n).mp ended, .inl ⟨rfl, rfl⟩⟩
    next => cases found
  | cons c rest ih =>
    simp only [pieces, separates_iff inert] at found
    split at found
    next cuts =>
      simp only [Bool.and_eq_true] at cuts
      obtain ⟨tail, sub, rfl⟩ := Option.map_eq_some_iff.mp found
      have here := (isOutside_iff n).mp cuts.1
      subst here
      refine ⟨[], tail, rfl, rfl, rfl, .inr ⟨c, rest, rfl, cuts.2, ?_⟩⟩
      obtain ⟨part, others, rfl, whole, closed, ends | ⟨d, after, eq, cutter, cut⟩⟩ := ih sub
      · rw [ends.1, ends.2]
        exact .last whole closed
      · rw [eq]
        exact .more whole closed cutter cut
    next kept =>
      obtain ⟨sub, found', rfl⟩ := Option.map_eq_some_iff.mp found
      obtain ⟨part, others, rfl, whole, closed, shape⟩ := ih found'
      refine ⟨c :: part, others, rfl, ?_, closed, ?_⟩
      · simp only [avoids, whole, Bool.and_true, Bool.not_eq_true']
        simpa using kept
      · rcases shape with ⟨none, rfl⟩ | ⟨d, after, rfl, cutter, cut⟩
        · exact .inl ⟨none, rfl⟩
        · exact .inr ⟨d, after, rfl, cutter, cut⟩

theorem pieces_of_avoids {n : Nesting} {cs : List Char}
    (whole : avoids separator.matches n cs = true) (closed : n.run cs = outside) :
    pieces separator n cs = some [cs] := by
  induction cs generalizing n with
  | nil => simp only [pieces, (isOutside_iff n).mpr closed, if_true]
  | cons c rest ih =>
    simp only [avoids, Bool.and_eq_true, Bool.not_eq_true'] at whole
    simp only [pieces, separates_iff inert, whole.1, Bool.false_eq_true, if_false,
      ih whole.2 closed, Option.map_some, consFirst]

theorem pieces_append {n : Nesting} {part rest : List Char} {c : Char}
    (whole : avoids separator.matches n part = true) (closed : n.run part = outside)
    (cutter : separator.matches c = true) :
    pieces separator n (part ++ c :: rest) =
      (pieces separator outside rest).map (part :: ·) := by
  induction part generalizing n with
  | nil =>
    have here : n = outside := closed
    subst here
    simp only [List.nil_append, pieces, separates_iff inert, cutter, Bool.and_true]
    rw [if_pos ((isOutside_iff _).mpr rfl)]
  | cons d part ih =>
    simp only [avoids, Bool.and_eq_true, Bool.not_eq_true'] at whole
    simp only [List.cons_append, pieces, separates_iff inert, whole.1, Bool.false_eq_true,
      if_false, ih whole.2 closed, Option.map_map]
    rfl

/-- The pieces of a text are the parts of a cut. -/
theorem pieces_iff (cs : List Char) (parts : List (List Char)) :
    pieces separator outside cs = some parts ↔ Cut separator.matches cs parts := by
  constructor
  · intro found
    obtain ⟨part, others, rfl, whole, closed, ends | ⟨c, rest, rfl, cutter, cut⟩⟩ :=
      cut_of_pieces inert found
    · rw [ends.1, ends.2]
      exact .last whole closed
    · exact .more whole closed cutter cut
  · intro cut
    induction cut with
    | last whole closed => exact pieces_of_avoids inert whole closed
    | more whole closed cutter _ ih => rw [pieces_append inert whole closed cutter, ih]; rfl

/-- What is kept of the pieces between separators: pieces without the blanks around them, and of the pieces between blanks
those that are not empty. -/
def Separator.keep : Separator → List (List Char) → List (List Char)
  | .blank, pieces => pieces.filter fun piece => !piece.isEmpty
  | .char _, pieces | .never, pieces => pieces.map trim

theorem splitTopLevel_iff (cs : List Char) (parts : List (List Char)) :
    splitTopLevel separator cs = some parts ↔
      ∃ raw, Cut separator.matches cs raw ∧ parts = separator.keep raw := by
  have kept : splitTopLevel separator cs = (pieces separator outside cs).map separator.keep := by
    cases separator <;> rfl
  rw [kept, Option.map_eq_some_iff]
  refine exists_congr fun raw => ?_
  rw [pieces_iff inert]
  exact and_congr_right fun _ => eq_comm

end Pieces

theorem split_comma_iff (cs : List Char) (parts : List (List Char)) :
    splitTopLevel (.char ',') cs = some parts ↔
      ∃ raw, Cut isComma cs raw ∧ parts = raw.map trim := by
  have inert : ∀ c, (Separator.char ',').matches c = true → isInert c = true := fun _ comma => inert_of_comma comma
  exact splitTopLevel_iff inert cs parts

theorem split_blank_iff (cs : List Char) (parts : List (List Char)) :
    splitTopLevel .blank cs = some parts ↔
      ∃ raw, Cut isBlank cs raw ∧ parts = raw.filter fun piece => !piece.isEmpty := by
  have inert : ∀ c, Separator.blank.matches c = true → isInert c = true := fun _ blank => inert_of_blank blank
  exact splitTopLevel_iff inert cs parts

/-! ### Nesting over a cut -/

namespace Cut

variable {p : Char → Bool} {cs : List Char} {parts : List (List Char)}

theorem ne_nil (cut : Cut p cs parts) : parts ≠ [] := by cases cut <;> simp

theorem run_eq (inert : ∀ c, p c = true → isInert c = true) (cut : Cut p cs parts) :
    outside.run cs = outside := by
  induction cut with
  | last _ closed => exact closed
  | more _ closed cutter _ ih =>
    rw [run_append, run_cons, closed, after_inert Sound.outside (inert _ cutter), ih]

/-- What the whole avoids, its parts avoid. -/
theorem parts_avoid (inert : ∀ c, p c = true → isInert c = true) (cut : Cut p cs parts)
    {q : Char → Bool} (clean : avoids q outside cs = true) :
    ∀ part ∈ parts, avoids p outside part = true ∧ outside.run part = outside ∧
      avoids q outside part = true := by
  induction cut with
  | last whole closed =>
    intro part member
    rw [List.mem_singleton.mp member]
    exact ⟨whole, closed, clean⟩
  | more whole closed cutter _ ih =>
    simp only [avoids_append, closed, avoids, Bool.and_eq_true] at clean
    rw [after_inert Sound.outside (inert _ cutter)] at clean
    intro part member
    rcases List.mem_cons.mp member with rfl | later
    · exact ⟨whole, closed, clean.1⟩
    · exact ih clean.2.2 part later

/-- Each part ends outside and has no cutting character outside. -/
theorem each (cut : Cut p cs parts) :
    ∀ part ∈ parts, avoids p outside part = true ∧ outside.run part = outside := by
  induction cut with
  | last whole closed => simpa using ⟨whole, closed⟩
  | more whole closed _ _ ih => exact List.forall_mem_cons.mpr ⟨⟨whole, closed⟩, ih⟩

/-- Texts that end outside and have no cutting character outside are the parts of what they are joined to. -/
theorem of_parts {c : Char} (cutter : p c = true) (some_ : parts ≠ [])
    (each : ∀ part ∈ parts, avoids p outside part = true ∧ outside.run part = outside) :
    Cut p ([c].intercalate parts) parts := by
  induction parts with
  | nil => exact absurd rfl some_
  | cons part parts ih =>
    obtain ⟨⟨whole, closed⟩, later⟩ := List.forall_mem_cons.mp each
    by_cases more : parts = []
    · subst more
      rw [List.intercalate_singleton]
      exact .last whole closed
    · rw [List.intercalate_cons_of_ne_nil more, List.append_assoc]
      exact .more whole closed cutter (ih more later)

/-- A text that is cut nowhere avoids the cutting characters. -/
theorem avoids_of_length (cut : Cut p cs parts) (few : parts.length ≤ 1) :
    parts = [cs] ∧ avoids p outside cs = true := by
  cases cut with
  | last whole _ => exact ⟨rfl, whole⟩
  | more _ _ _ others =>
    have := List.length_pos_iff.mpr others.ne_nil
    simp only [List.length_cons] at few
    omega

end Cut

/-! ### Tokens -/

/-- A blank or a comma. -/
def breaks (c : Char) : Bool := isBlank c || isComma c

theorem inert_of_breaks {c : Char} (break_ : breaks c = true) : isInert c = true := by
  rcases Bool.or_eq_true _ _ ▸ break_ with blank | comma
  · exact inert_of_blank blank
  · exact inert_of_comma comma

/-- A text that can be cut nowhere. -/
structure Solid (token : List Char) : Prop where
  filled : token ≠ []
  whole : avoids breaks outside token = true
  closed : outside.run token = outside

namespace Solid

variable {token : List Char}

theorem avoids_blank (solid : Solid token) : avoids isBlank outside token = true := by
  have whole := solid.whole
  unfold breaks at whole
  rw [avoids_or, Bool.and_eq_true] at whole
  exact whole.1

theorem avoids_comma (solid : Solid token) : avoids isComma outside token = true := by
  have whole := solid.whole
  unfold breaks at whole
  rw [avoids_or, Bool.and_eq_true] at whole
  exact whole.2

end Solid

/-- A text that ends outside and has no blank outside has none at either end. -/
theorem bare_of_avoids {cs : List Char} (whole : avoids isBlank outside cs = true)
    (closed : outside.run cs = outside) : Bare cs := by
  constructor
  · intro c found
    obtain ⟨rest, rfl⟩ := List.head?_eq_some_iff.mp found
    simp only [avoids, Bool.and_eq_true, Bool.not_eq_true'] at whole
    simpa [isOutside, outside] using whole.1
  · intro c found
    obtain ⟨front, rfl⟩ := List.getLast?_eq_some_iff.mp found
    by_cases blank : isBlank c = true
    · have sound : (outside.run front).Sound := Sound.outside.run front
      rw [run_append, run_cons, run_nil, after_inert sound (inert_of_blank blank)] at closed
      simp only [avoids_append, closed, avoids, Bool.and_eq_true, Bool.not_eq_true',
        Bool.and_true] at whole
      simpa [isOutside, outside] using whole.2
    · simpa using blank

theorem Solid.bare {token : List Char} (solid : Solid token) : Bare token :=
  bare_of_avoids solid.avoids_blank solid.closed

/-- Tokens with gaps of blanks between them. -/
inductive Spaced : List Char → List (List Char) → Prop
  | one (token : List Char) : Spaced token [token]
  | more {token gap rest : List Char} {tokens : List (List Char)} (apart : gap ≠ [])
      (blank : ∀ c ∈ gap, isBlank c = true) (others : Spaced rest tokens) :
      Spaced (token ++ (gap ++ rest)) (token :: tokens)

theorem Spaced.ne_nil {cs : List Char} {tokens : List (List Char)} (spaced : Spaced cs tokens) :
    tokens ≠ [] := by cases spaced <;> simp

/-- Behind leading blanks a cut text is its tokens with gaps between them, if it ends with one. -/
theorem spaced_of_cut {cs : List Char} {raw : List (List Char)} (cut : Cut isBlank cs raw)
    (filled : cs ≠ []) (last : ∀ c ∈ cs.getLast?, isBlank c = false) :
    ∃ gap rest, (∀ c ∈ gap, isBlank c = true) ∧ cs = gap ++ rest ∧ rest ≠ [] ∧
      Spaced rest (raw.filter fun piece => !piece.isEmpty) := by
  induction cut with
  | @last part whole closed =>
    refine ⟨[], part, by simp, rfl, filled, ?_⟩
    simp only [List.filter, List.isEmpty_eq_false_iff.mpr filled, Bool.not_false]
    exact .one part
  | @more part rest c parts whole closed cutter others ih =>
    have filled' : rest ≠ [] := by
      rintro rfl
      have ends := last c (by simp)
      rw [cutter] at ends
      cases ends
    have last' : ∀ d ∈ rest.getLast?, isBlank d = false := by
      intro d found
      refine last d ?_
      rw [List.getLast?_append, List.getLast?_cons, Option.mem_def.mp found]
      rfl
    obtain ⟨gap, after, blank, rfl, filled'', spaced⟩ := ih filled' last'
    have blank' : ∀ d ∈ c :: gap, isBlank d = true := by
      intro d member
      rcases List.mem_cons.mp member with rfl | member
      · exact cutter
      · exact blank d member
    by_cases empty : part = []
    · subst empty
      exact ⟨c :: gap, after, blank', rfl, filled'', by simpa [List.filter] using spaced⟩
    · refine ⟨[], part ++ (c :: gap ++ after), by simp, rfl, by simp, ?_⟩
      simp only [List.filter, List.isEmpty_eq_false_iff.mpr empty, Bool.not_false]
      exact .more (by simp) blank' spaced

/-- A trimmed text is its tokens with blanks between them. -/
theorem Spaced.of_cut {cs : List Char} {raw : List (List Char)} (cut : Cut isBlank cs raw)
    (filled : cs ≠ []) (bare : Bare cs) :
    Spaced cs (raw.filter fun piece => !piece.isEmpty) := by
  obtain ⟨gap, rest, blank, rfl, _, spaced⟩ := spaced_of_cut cut filled bare.last
  cases gap with
  | nil => exact spaced
  | cons c gap =>
    have first := bare.first c (by simp)
    rw [blank c (by simp)] at first
    cases first

/-! ### Tokens put together -/

/-- The tokens with single spaces between them. -/
abbrev row (tokens : List (List Char)) : List Char := [' '].intercalate tokens

theorem row_cons {token : List Char} {tokens : List (List Char)} (more : tokens ≠ []) :
    row (token :: tokens) = token ++ ' ' :: row tokens := by
  rw [row, List.intercalate_cons_of_ne_nil more, List.append_assoc]
  rfl

theorem after_space : outside.after ' ' = outside := by decide

section Row

variable {tokens : List (List Char)} (some_ : tokens ≠ []) (solid : ∀ token ∈ tokens, Solid token)

include some_ solid

theorem cut_row : Cut isBlank (row tokens) tokens :=
  Cut.of_parts rfl some_ fun token member => ⟨(solid token member).avoids_blank, (solid token member).closed⟩

theorem row_avoids {q : Char → Bool} (space : q ' ' = false)
    (clean : ∀ token ∈ tokens, avoids q outside token = true) : avoids q outside (row tokens) = true := by
  induction tokens with
  | nil => exact absurd rfl some_
  | cons token tokens ih =>
    by_cases more : tokens = []
    · subst more
      simpa using clean token (by simp)
    · rw [row_cons more, avoids_append, clean token (by simp), (solid token (by simp)).closed]
      simp only [avoids, space, Bool.and_false, Bool.not_false, Bool.true_and, after_space]
      exact ih more (fun later member => solid later (by simp [member]))
        fun later member => clean later (by simp [member])

theorem row_ne_nil : row tokens ≠ [] :=
  (bare_intercalate [' '] some_ fun token member => ⟨(solid token member).filled, (solid token member).bare⟩).1

theorem bare_row : Bare (row tokens) :=
  (bare_intercalate [' '] some_ fun token member => ⟨(solid token member).filled, (solid token member).bare⟩).2

/-- Texts that cannot be cut, with blanks between them, are cut into just these texts. -/
theorem split_solid : splitTopLevel .blank (row tokens) = some tokens := by
  refine (split_blank_iff _ _).mpr ⟨tokens, cut_row some_ solid, ?_⟩
  refine (List.filter_eq_self.mpr fun token member => ?_).symm
  simpa using (solid token member).filled

theorem split_comma_row : splitTopLevel (.char ',') (row tokens) = some [row tokens] := by
  have clean := row_avoids some_ solid (by decide) fun token member => (solid token member).avoids_comma
  have closed := (cut_row some_ solid).run_eq fun c blank => inert_of_blank blank
  refine (split_comma_iff _ _).mpr ⟨[row tokens], .last clean closed, ?_⟩
  rw [List.map_singleton, trim_of_bare (bare_row some_ solid)]

end Row

/-! ### Parts put together with commas -/

theorem joinCommas_cons {part : List Char} {parts : List (List Char)} (more : parts ≠ []) :
    joinCommas (part :: parts) = part ++ ',' :: joinCommas parts := by
  cases parts with
  | nil => exact absurd rfl more
  | cons _ _ => rfl

theorem run_trim {n : Nesting} (sound : n.Sound) (cs : List Char) : n.run (trim cs) = n.run cs := by
  obtain ⟨before, after, blank, blank', eq⟩ := trim_split cs
  have inner : n.run cs = (n.run (trim cs)).run after := by
    rw [eq, run_append, run_append, run_inert sound fun c member => inert_of_blank (blank c member),
      ← eq]
  rw [inner, run_inert (sound.run _) fun c member => inert_of_blank (blank' c member)]

theorem avoids_trim {q : Char → Bool} {n : Nesting} (sound : n.Sound) {cs : List Char}
    (clean : avoids q n cs = true) : avoids q n (trim cs) = true := by
  obtain ⟨before, after, blank, _, eq⟩ := trim_split cs
  rw [eq, avoids_append, avoids_append, Bool.and_eq_true, Bool.and_eq_true,
    run_inert sound fun c member => inert_of_blank (blank c member)] at clean
  exact clean.1.2

/-- Parts that are trimmed and joined with commas are the parts of the joined text. -/
theorem Cut.rejoin {cs : List Char} {parts : List (List Char)} (cut : Cut isComma cs parts) :
    Cut isComma (joinCommas (parts.map trim)) (parts.map trim) := by
  induction cut with
  | last whole closed =>
    exact .last (avoids_trim Sound.outside whole) ((run_trim Sound.outside _).trans closed)
  | more whole closed cutter others ih =>
    rw [List.map_cons, joinCommas_cons (by simpa using others.ne_nil)]
    exact .more (avoids_trim Sound.outside whole) ((run_trim Sound.outside _).trans closed) rfl ih

/-- What a text avoids, its trimmed parts joined with commas avoid. -/
theorem Cut.rejoin_avoids {cs : List Char} {parts : List (List Char)} (cut : Cut isComma cs parts)
    {q : Char → Bool} {n : Nesting} (sound : n.Sound) (clean : avoids q n cs = true) :
    avoids q n (joinCommas (parts.map trim)) = true := by
  induction cut generalizing n with
  | last => exact avoids_trim sound clean
  | @more part rest c parts _ _ cutter others ih =>
    have comma : c = ',' := of_decide_eq_true cutter
    rw [avoids_append, Bool.and_eq_true] at clean
    simp only [avoids, Bool.and_eq_true] at clean
    rw [List.map_cons, joinCommas_cons (by simpa using others.ne_nil), avoids_append,
      avoids_trim sound clean.1, run_trim sound]
    simp only [avoids, Bool.true_and, ← comma, clean.2.1]
    exact ih ((sound.run _).after c) clean.2.2

theorem bare_joinCommas {parts : List (List Char)} (bare : ∀ part ∈ parts, Bare part) :
    Bare (joinCommas parts) := by
  induction parts with
  | nil => exact .nil
  | cons part parts ih =>
    by_cases more : parts = []
    · subst more
      exact bare part (by simp)
    · have here := bare part (by simp)
      have later := ih fun other member => bare other (by simp [member])
      rw [joinCommas_cons more]
      constructor
      · intro c found
        rw [List.head?_append] at found
        cases first : part.head? with
        | none =>
          rw [first] at found
          cases found
          decide
        | some d =>
          rw [first] at found
          cases found
          exact here.first _ first
      · intro c found
        rw [List.getLast?_append, List.getLast?_cons] at found
        cases last : (joinCommas parts).getLast? with
        | none =>
          rw [last] at found
          cases found
          decide
        | some d =>
          rw [last] at found
          cases found
          exact later.last _ last

/-- Only the blanks around the parts of a text are gone when its parts are trimmed and joined. -/
def Neat (cs : List Char) : Prop := ∃ parts, Cut isComma cs parts ∧ joinCommas (parts.map trim) = cs

/-- A text without a comma outside is neat when it is trimmed. -/
theorem neat_of_avoids {cs : List Char} (whole : avoids isComma outside cs = true)
    (closed : outside.run cs = outside) (bare : Bare cs) : Neat cs :=
  ⟨[cs], .last whole closed, trim_of_bare bare⟩

theorem Cut.neat_rejoin {cs : List Char} {parts : List (List Char)} (cut : Cut isComma cs parts) :
    Neat (joinCommas (parts.map trim)) := by
  refine ⟨parts.map trim, cut.rejoin, ?_⟩
  rw [List.map_map]
  congr 1
  exact List.map_congr_left fun part _ => trim_trim part

end Retouch.Style
