import Retouch.Proofs.Style.Cut
import Retouch.Proofs.Style.Settled

/-!
# Tokens read again

What the reader makes of one token: numbers, the token itself as a word or as text, a color, or a
reference to a variable by what stands in the parentheses of `var`.

## Main statements

* `readToken_cases`: the readings of a token.
* `readToken_var`: a call of `var` is read by its body.
* `readVar_of_cut`: how the body is read by its parts.
* `solid_call_iff`, `calm_call_iff`: the nesting of a call is that of its body.
-/
namespace Retouch.Style

open Retouch.Text Retouch.Number Nesting

/-! ### Calls -/

/-- A function name with something in parentheses behind it. -/
def call (name body : List Char) : List Char := name ++ '(' :: (body ++ [')'])

/-- No character of a name has a meaning for cuts. -/
def Callable (name : List Char) : Prop := ∀ c ∈ name, isInert c = true ∧ breaks c = false

theorem callable_of_all {name : List Char} (all : (name.all fun c => isInert c && !breaks c) = true) :
    Callable name := fun c member => by simpa using List.all_eq_true.mp all c member

theorem callable_var : Callable "var".toList := callable_of_all (by decide)

theorem inside_call {name : List Char} (callable : Callable name) :
    (outside.run name).after '(' = outside.deeper := by
  rw [run_inert Sound.outside fun c member => (callable c member).1]
  rfl

theorem Callable.avoids {name : List Char} (callable : Callable name) :
    avoids breaks outside name = true :=
  avoids_of_none (fun c member => (callable c member).2) outside

theorem Callable.calm {name : List Char} (callable : Callable name) : calm outside name = true := by
  refine avoids_of_none (fun c member => ?_) outside
  have inert := (callable c member).1
  unfold isInert at inert
  simp only [Bool.not_eq_true', Bool.or_eq_false_iff] at inert
  exact inert.2

/-- A text without any character that matters for cuts is a token. -/
theorem Callable.solid {name : List Char} (callable : Callable name) (filled : name ≠ []) : Solid name :=
  ⟨filled, callable.avoids, run_inert Sound.outside fun c member => (callable c member).1⟩

theorem Callable.append {a b : List Char} (first : Callable a) (second : Callable b) : Callable (a ++ b) :=
  fun c member => (List.mem_append.mp member).elim (first c) (second c)

theorem callable_unit (u : LengthUnit) : Callable u.name.toList := by
  refine callable_of_all ?_
  cases u <;> decide

theorem Numeral.callable {cs : List Char} (numeral : Numeral cs) : Callable cs := by
  intro c member
  rcases numeral.chars c member with digit | rfl | rfl
  · simpa using of_decimal (p := fun d => isInert d && !breaks d) (by decide) digit
  · decide
  · decide

theorem run_call {name body : List Char} (callable : Callable name) (closed : outside.run body = outside) :
    outside.run (call name body) = outside := by
  rw [call, run_append, run_cons, inside_call callable, run_append, run_deeper, closed]
  split <;> rfl

theorem solid_call_iff {name body : List Char} (callable : Callable name)
    (closed : outside.run body = outside) :
    Solid (call name body) ↔ avoids breaks outside.deeper body = true := by
  have whole : avoids breaks outside (call name body) = avoids breaks outside.deeper body := by
    rw [call, avoids_append, callable.avoids, Bool.true_and]
    simp only [avoids, inside_call callable, avoids_append]
    simp [breaks, isComma, isBlank]
  constructor
  · exact fun solid => whole ▸ solid.whole
  · exact fun clean => ⟨by simp [call], whole.trans clean, run_call callable closed⟩

theorem calm_call_iff {name body : List Char} (callable : Callable name)
    (closed : outside.run body = outside) : calm outside (call name body) = calm outside body := by
  have quiet := callable.calm
  simp only [calm] at quiet ⊢
  rw [call, avoids_append, quiet, Bool.true_and]
  simp only [avoids, inside_call callable, avoids_append]
  have same : avoids (fun c => decide (c = ')')) outside body = calm outside body := rfl
  rw [run_deeper, closed, same]
  cases quiet : calm outside body with
  | true => simp [avoids_deeper_of_calm quiet]
  | false => simp [isOutside, outside]

/-- What may stand in front of a parenthesis: letters and dashes. -/
structure FunctionName (name : List Char) : Prop where
  filled : name ≠ []
  letters : ∀ c ∈ name, (isLooseLetter c || decide (c = '-')) = true

namespace FunctionName

theorem of_all {name : List Char}
    (all : (!name.isEmpty && name.all fun c => isLooseLetter c || decide (c = '-')) = true) : FunctionName name := by
  simp only [Bool.and_eq_true, Bool.not_eq_true', List.isEmpty_eq_false_iff] at all
  exact ⟨all.1, List.all_eq_true.mp all.2⟩

variable {name : List Char} (called : FunctionName name)

include called

theorem callable : Callable name := by
  intro c member
  have letter := called.letters c member
  constructor
  · rw [isInert, Bool.not_eq_true', ← Bool.not_eq_true]
    intro mark
    simp only [Bool.or_eq_true, decide_eq_true_eq, or_assoc] at mark
    rcases mark with rfl | rfl | rfl | rfl <;> revert letter <;> decide
  · rw [← Bool.not_eq_true]
    intro stop
    rcases Bool.or_eq_true _ _ ▸ stop with blank | comma
    · have none := of_blank (p := fun d => !(isLooseLetter d || decide (d = '-'))) (by decide) blank
      rw [letter] at none
      cases none
    · rw [of_decide_eq_true comma] at letter
      revert letter
      decide

theorem noBlank : ∀ c ∈ name, isBlank c = false := fun c member =>
  (Bool.or_eq_false_iff.mp (called.callable c member).2).1

end FunctionName

/-- What stands in front of a parenthesis at the very end. -/
def inside? (rest : List Char) : Option (List Char) :=
  if rest.getLast? = some ')' then some rest.dropLast else none

theorem inside?_closed (body : List Char) : inside? (body ++ [')']) = some body := by simp [inside?]

/-- The parts of a text that opens a function. -/
theorem functionParts?_opened {name : List Char} (called : FunctionName name) (rest : List Char) :
    functionParts? (name ++ '(' :: rest) = (inside? rest).map fun body => (name, body) := by
  have cut : (name ++ '(' :: rest).span (fun c => isLooseLetter c || c = '-') = (name, '(' :: rest) := by
    rw [List.span_eq_takeWhile_dropWhile, List.takeWhile_append_of_pos called.letters,
      List.dropWhile_append_of_pos called.letters, List.takeWhile_cons_of_neg (by decide),
      List.dropWhile_cons_of_neg (by decide), List.append_nil]
  unfold functionParts?
  rw [cut]
  rcases List.eq_nil_or_concat rest with rfl | ⟨body, c, rfl⟩
  · rfl
  · by_cases closing : c = ')'
    · simp [closing, inside?, called.filled]
    · simp [closing, inside?]

theorem functionParts?_call {name : List Char} (called : FunctionName name) (body : List Char) :
    functionParts? (call name body) = some (name, body) := by
  rw [call, functionParts?_opened called, inside?_closed, Option.map_some]

theorem functionParts?_eq_some {cs name body : List Char} (found : functionParts? cs = some (name, body)) :
    cs = call name body ∧ FunctionName name := by
  unfold functionParts? at found
  rw [List.span_eq_takeWhile_dropWhile] at found
  have whole : cs = cs.takeWhile _ ++ cs.dropWhile _ :=
    (List.takeWhile_append_dropWhile (p := fun c => isLooseLetter c || c = '-')).symm
  simp only at found
  split at found
  next inside after eq ends =>
    split at found
    · cases found
    next empty =>
      simp only [Option.some.injEq, Prod.mk.injEq] at found
      obtain ⟨rfl, rfl⟩ := found
      have last : '(' :: inside = after.reverse ++ [')'] := by
        have := congrArg List.reverse ends
        rw [List.reverse_reverse, List.reverse_cons, eq] at this
        exact this
      have filled : inside ≠ [] := by
        rintro rfl
        cases back : after.reverse with
        | nil => rw [back] at last; revert last; decide
        | cons c rest => rw [back] at last; simp at last
      have closing : inside.getLast filled = ')' := by
        have := congrArg List.getLast? last
        rw [List.getLast?_cons, List.getLast?_eq_some_getLast filled, List.getLast?_concat] at this
        simpa using this
      refine ⟨?_, fun none => empty (by simp [none]), fun c member => ?_⟩
      · rw [call, ← closing, List.dropLast_concat_getLast filled, ← eq]
        exact whole
      · exact List.all_eq_true.mp List.all_takeWhile c member
  next => cases found

/-! ### References to variables -/

/-- How the body of a reference is read by its parts. -/
theorem readVar_of_cut {inner : List Char → Option Value} {body part : List Char}
    {others : List (List Char)} (cut : Cut isComma body (part :: others)) :
    readVar inner body =
      if !"--".toList.isPrefixOf (trim part) then some (.unparsed (String.ofList (call "var".toList body)))
      else if joinCommas (others.map trim) = [] then some (.var (String.ofList (trim part)) none)
      else (inner (joinCommas (others.map trim))).map fun fallback =>
        .var (String.ofList (trim part)) (some fallback) := by
  have parts := (split_comma_iff body _).mpr ⟨_, cut, rfl⟩
  have bare : Bare (joinCommas (others.map trim)) := by
    refine bare_joinCommas fun piece member => ?_
    obtain ⟨raw, _, rfl⟩ := List.mem_map.mp member
    exact bare_trim raw
  unfold readVar
  rw [parts]
  simp only [List.map_cons, List.headD_cons, List.tail_cons, trim_trim, trim_of_bare bare,
    Option.bind_eq_bind, Option.bind_some]
  split
  · rfl
  · simp only [List.isEmpty_iff]
    split
    · rfl
    · cases inner (joinCommas (others.map trim)) <;> rfl

theorem cut_of_readVar {inner : List Char → Option Value} {body : List Char} {value : Value}
    (read : readVar inner body = some value) :
    ∃ part others, Cut isComma body (part :: others) := by
  unfold readVar at read
  cases parts : splitTopLevel (.char ',') body with
  | none => rw [parts] at read; cases read
  | some found =>
    obtain ⟨raw, cut, _⟩ := (split_comma_iff body found).mp parts
    obtain ⟨part, others, rfl⟩ := List.exists_cons_of_ne_nil cut.ne_nil
    exact ⟨part, others, cut⟩

/-! ### Tokens -/

/-- A call of `var` is read by its body. -/
theorem readToken_var (colors : Bool) (inner : List Char → Option Value) (body : List Char) :
    readToken colors inner (call "var".toList body) = readVar inner body := by
  have noNumber : dimension? (call "var".toList body) = none := rfl
  have called : FunctionName "var".toList := .of_all (by decide)
  have parts := functionParts?_call called body
  have lowered : String.ofList (lowerChars "var".toList) = "var" := by decide +kernel
  unfold readToken
  simp only [noNumber]
  have shape : call "var".toList body = 'v' :: 'a' :: 'r' :: '(' :: (body ++ [')']) := rfl
  rw [shape] at parts ⊢
  simp only [parts, lowered]
  rfl

/-- From a text to what is left of it when characters of a class are taken off its front. -/
def Advances (p : Char → Bool) (cs rest : List Char) : Prop := ∃ front, cs = front ++ rest ∧ ∀ c ∈ front, p c = true

namespace Advances

variable {p q : Char → Bool} {cs mid rest : List Char}

theorem refl (p : Char → Bool) (cs : List Char) : Advances p cs cs := ⟨[], rfl, by simp⟩

theorem trans (first : Advances p cs mid) (second : Advances p mid rest) : Advances p cs rest := by
  obtain ⟨front, rfl, all⟩ := first
  obtain ⟨more, rfl, all'⟩ := second
  exact ⟨front ++ more, (List.append_assoc ..).symm, fun c member => (List.mem_append.mp member).elim (all c) (all' c)⟩

theorem mono (wider : ∀ c, p c = true → q c = true) (advances : Advances p cs rest) : Advances q cs rest := by
  obtain ⟨front, eq, all⟩ := advances
  exact ⟨front, eq, fun c member => wider c (all c member)⟩

theorem cons {c : Char} (here : p c = true) (cs : List Char) : Advances p (c :: cs) cs := ⟨[c], rfl, by simpa using here⟩

theorem span (p : Char → Bool) (cs : List Char) : Advances p cs (cs.span p).2 := by
  rw [List.span_eq_takeWhile_dropWhile]
  exact ⟨cs.takeWhile p, List.takeWhile_append_dropWhile.symm, List.all_eq_true.mp List.all_takeWhile⟩

end Advances

/-- What a number is made of. -/
def isNumeric (c : Char) : Bool := isDigit c || ['+', '-', '.', 'e', 'E'].contains c

theorem advances_digits (cs : List Char) : Advances isNumeric cs (cs.span isDigit).2 :=
  (Advances.span isDigit cs).mono fun c digit => by rw [isNumeric, digit, Bool.true_or]

theorem advances_takeSign (cs : List Char) : Advances isNumeric cs (takeSign cs).2 := by
  unfold takeSign
  split
  · exact .cons (by decide) _
  · exact .cons (by decide) _
  · exact .refl _ _

theorem advances_takeFraction (whole cs : List Char) : Advances isNumeric cs (takeFraction whole cs).2 := by
  unfold takeFraction
  split
  next more =>
    simp only
    split
    · exact .refl _ _
    · exact (Advances.cons (by decide) more).trans (advances_digits more)
  · exact .refl _ _

theorem advances_takeExponent (cs : List Char) : Advances isNumeric cs (takeExponent cs).2 := by
  unfold takeExponent
  split
  next c more =>
    split
    next letter =>
      have numeric : isNumeric c = true := by rcases letter with rfl | rfl <;> decide
      simp only
      split
      · exact .refl _ _
      · exact (Advances.cons numeric more).trans ((advances_takeSign more).trans (advances_digits _))
    · exact .refl _ _
  · exact .refl _ _

/-- What stands behind a number is the end of the text. -/
theorem advances_takeNumber {cs rest : List Char} {x : Float} (taken : takeNumber cs = some (x, rest)) :
    Advances isNumeric cs rest := by
  unfold takeNumber at taken
  simp only at taken
  split at taken
  · cases taken
  · cases taken
    exact (advances_takeSign cs).trans ((advances_digits _).trans
      ((advances_takeFraction _ _).trans (advances_takeExponent _)))

theorem ofName?_eq_some {name : String} {u : LengthUnit} (found : LengthUnit.ofName? name = some u) :
    u.name = name := by
  unfold LengthUnit.ofName? at found
  simpa using List.find?_some found

/-- The readings of a token that begins with a number. -/
theorem dimension?_cases {token : List Char} {value : Value} (read : dimension? token = some value) :
    value = .unparsed (String.ofList token) ∨
      (∃ x, takeNumber token = some (x, []) ∧ value = .number x) ∨
      ∃ x u rest, takeNumber token = some (x, rest) ∧ lowerChars rest = u.name.toList ∧
        value = .unit x u := by
  unfold dimension? at read
  cases taken : takeNumber token with
  | none => rw [taken] at read; cases read
  | some pair =>
    obtain ⟨x, rest⟩ := pair
    rw [taken] at read
    obtain ⟨_, same, read⟩ := Option.bind_eq_some_iff.mp read
    cases same
    obtain ⟨_, _, read⟩ := Option.bind_eq_some_iff.mp read
    split at read
    next empty =>
      cases read
      exact .inr (.inl ⟨x, by rw [List.isEmpty_iff.mp empty], rfl⟩)
    next =>
      split at read
      next u found =>
        cases read
        refine .inr (.inr ⟨x, u, rest, rfl, ?_, rfl⟩)
        rw [ofName?_eq_some found, String.toList_ofList]
      next => cases read; exact .inl rfl

/-- The readings of a token without a color. -/
theorem readToken_cases {colors : Bool} {inner : List Char → Option Value} {token : List Char}
    {value : Value} (read : readToken colors inner token = some value)
    (colorless : value.colorless = true) :
    value = .keyword (String.ofList token) ∨ value = .unparsed (String.ofList token) ∨
      (∃ x, takeNumber token = some (x, []) ∧ value = .number x) ∨
      (∃ x u rest, takeNumber token = some (x, rest) ∧ lowerChars rest = u.name.toList ∧
        value = .unit x u) ∨
      ∃ name body, token = call name body ∧ Callable name ∧ lowerChars name = "var".toList ∧
        readVar inner body = some value := by
  have noColor : ∀ other : Value, other.colorless = true →
      some (((Color.ofChars? token).map Value.color).getD other) = some value → value = other := by
    intro other _ eq
    cases color : Color.ofChars? token with
    | none => rw [color] at eq; exact (Option.some.inj eq).symm
    | some c => rw [color] at eq; cases eq; cases colorless
  unfold readToken at read
  cases number : dimension? token with
  | some measured =>
    simp only [number, Option.some.injEq] at read
    subst read
    rcases dimension?_cases number with text | plain | unit
    · exact .inr (.inl text)
    · exact .inr (.inr (.inl plain))
    · exact .inr (.inr (.inr (.inl unit)))
  | none =>
    simp only [number] at read
    split at read
    · exact .inr (.inl (noColor _ rfl read))
    · split at read
      · exact .inl (Option.some.inj read).symm
      · split at read
        next name body parts =>
          obtain ⟨eq, called⟩ := functionParts?_eq_some parts
          split at read
          next isVar =>
            refine .inr (.inr (.inr (.inr ⟨name, body, eq, called.callable, ?_, read⟩)))
            rw [← isVar, String.toList_ofList]
          next =>
            split at read
            · exact .inr (.inl (noColor _ rfl read))
            · exact .inr (.inl (Option.some.inj read).symm)
        next =>
          split at read
          · split at read
            · exact .inl (noColor _ rfl read)
            · exact .inl (Option.some.inj read).symm
          · exact .inr (.inl (Option.some.inj read).symm)
    · exact .inr (.inl (Option.some.inj read).symm)

/-- A number that is written as figures is read as what they stand for. -/
theorem readToken_figures (colors : Bool) (inner : List Char → Option Value) (figures : Figures) :
    readToken colors inner figures.chars = some (.number figures.value) := by
  have taken := takeNumber_figures figures .nil
  rw [List.append_nil] at taken
  have number : dimension? figures.chars = some (.number figures.value) := by
    unfold dimension?
    rw [taken]
    rfl
  unfold readToken
  rw [number]

theorem readToken_unit (colors : Bool) (inner : List Char → Option Value) (figures : Figures)
    (u : LengthUnit) :
    readToken colors inner (figures.chars ++ u.name.toList) = some (.unit figures.value u) := by
  have number : dimension? (figures.chars ++ u.name.toList) = some (.unit figures.value u) := by
    unfold dimension?
    rw [takeNumber_figures figures (.unit u)]
    cases u <;> rfl
  unfold readToken
  rw [number]

end Retouch.Style
