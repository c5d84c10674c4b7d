import Mathlib.Data.List.Forall2
import Retouch.Proofs.Style.Token

/-!
# Writing a value and reading it again

What becomes of a token and of a text when the value that was read from it is written anew. Beside the
value itself four things are kept, because the text may stand in the fallback of a variable or between other
tokens: nothing new stands outside, no stray parenthesis is added, only the blanks around commas go, and
the text is no more complex.

So a value that was read from a text, written with some number of places and read again is the same value
but for its numbers, which are rounded. This holds for every text: also for words in quotes, lists with
commas, stray parentheses, text that is kept as it stands, and references nested beyond the limit. It does
not cover colors, which are written in another form, and numbers beyond the range of doubles.

There is one exception. Writing a number other than zero fails where the number of places is beyond any
use.

## Main statements

* `token_trip`: one token, given the same for fallbacks of fewer levels.
* `text_trip`: a trimmed text, at every number of levels.
* `parse_write`: the value of a text reads back, or cannot be written.
* `many_places_refused`: the exception does occur.
-/
namespace Retouch.Style

open Retouch.Text Retouch.Number Nesting Value

/-- Ends outside, and can be cut nowhere one parenthesis further in. -/
structure Sealed (cs : List Char) : Prop where
  closed : outside.run cs = outside
  whole : avoids breaks outside.deeper cs = true

theorem Solid.sealed {token : List Char} (solid : Solid token) : Sealed token :=
  ⟨solid.closed, avoids_deeper solid.whole⟩

theorem solid_call {name body : List Char} (callable : Callable name) (sealed : Sealed body) :
    Solid (call name body) := (solid_call_iff callable sealed.closed).mpr sealed.whole

/-- No color and no number without a value. -/
structure Plain (value : Value) : Prop where
  colorless : value.colorless = true
  finite : ∀ x ∈ value.numbers, IsFinite x

section Trips

variable (colors : Bool) (places : Nat)

/-- What writing the value of a token makes of the token. -/
structure TokenTrip (inner : List Char → Option Value) (token : List Char) (value : Value)
    (written : List Char) : Prop where
  back : ∃ again, value.settled? places = some again ∧ readToken colors inner written = some again
  solid : Solid written
  quiet : calm outside token = true → calm outside written = true
  tidied : Tidied token written

/-- What writing the value of a trimmed text makes of the text. -/
structure TextTrip (levels : Nat) (text : List Char) (value : Value) (written : List Char) : Prop where
  back : ∃ again, value.settled? places = some again ∧ readAt colors levels written = some again
  bare : Bare written
  filled : text ≠ [] → written ≠ []
  tidied : Tidied text written
  sealed : Sealed text → Sealed written
  quiet : Sealed text → calm outside text = true → calm outside written = true
  neat : Neat text → Neat written

/-- Trips of all fallbacks of so many levels. -/
def Trips (levels : Nat) : Prop :=
  ∀ text value written, Bare text → readAt colors levels text = some value → Plain value →
    value.write (withPlaces places) = .ok written → TextTrip colors places levels text value written.toList

variable {colors places}

/-! ### Numbers -/

theorem tidied_number {token rest rest' number : List Char} (front : List Char) (eq : token = front ++ rest)
    (numeral : Numeral number) (alike : folded rest = folded rest') (comma : ',' ∉ rest') :
    Tidied token (number ++ rest') := by
  rw [eq, ← List.append_nil rest, ← List.append_nil rest']
  exact .exchange (.number front numeral) (.same alike (fun member => absurd member comma) .nil)

theorem folded_of_lowered {cs : List Char} {name : List Char} (lowered : lowerChars cs = name)
    (fixed : folded name = name) (one : name.map oneSigma = name) : folded cs = folded name := by
  rw [folded, lowered, one, fixed]

theorem number_trip {inner : List Char → Option Value} {token : List Char} {x : Float} {written : String}
    (taken : takeNumber token = some (x, [])) (plain : Plain (.number x))
    (done : (Value.number x).write (withPlaces places) = .ok written) :
    TokenTrip colors places inner token (.number x) written.toList := by
  have finite := plain.finite x (by simp [numbers])
  rw [write] at done
  rcases writeNumber_cases finite places with ⟨⟨figures, text, settled⟩, _⟩ | ⟨failed, _⟩
  · rw [withPlaces, text] at done
    cases done
    obtain ⟨front, eq, -⟩ := advances_takeNumber taken
    have callable := figures.numeral.callable
    rw [String.toList_ofList]
    refine ⟨⟨.number figures.value, ?_, readToken_figures colors inner figures⟩, ?_, fun _ => callable.calm, ?_⟩
    · rw [settled?, settled]
      rfl
    · obtain ⟨ahead, digit, last, _⟩ := figures.numeral.last
      exact callable.solid (by simp [last])
    · have tidied : Tidied token (figures.chars ++ []) :=
        tidied_number front eq figures.numeral rfl (by simp)
      rwa [List.append_nil] at tidied
  · rw [withPlaces, failed] at done
    cases done

theorem unit_trip {inner : List Char → Option Value} {token rest : List Char} {x : Float} {u : LengthUnit}
    {written : String} (taken : takeNumber token = some (x, rest)) (lowered : lowerChars rest = u.name.toList)
    (plain : Plain (.unit x u)) (done : (Value.unit x u).write (withPlaces places) = .ok written) :
    TokenTrip colors places inner token (.unit x u) written.toList := by
  have finite := plain.finite x (by simp [numbers])
  rw [write] at done
  rcases writeNumber_cases finite places with ⟨⟨figures, text, settled⟩, _⟩ | ⟨failed, _⟩
  · rw [withPlaces, text] at done
    cases done
    obtain ⟨front, eq, -⟩ := advances_takeNumber taken
    have callable := figures.numeral.callable.append (callable_unit u)
    rw [String.toList_append, String.toList_ofList]
    refine ⟨⟨.unit figures.value u, ?_, readToken_unit colors inner figures u⟩, ?_, fun _ => callable.calm, ?_⟩
    · rw [settled?, settled]
      rfl
    · obtain ⟨ahead, digit, last, _⟩ := figures.numeral.last
      exact callable.solid (by simp [last])
    · have alike : folded rest = folded u.name.toList :=
        folded_of_lowered lowered (by cases u <;> decide +kernel) (by cases u <;> decide)
      exact tidied_number front eq figures.numeral alike (by cases u <;> decide)
  · rw [withPlaces, failed] at done
    cases done

/-! ### References to variables -/

/-- In front of a character that would cut, every parenthesis that is closed was opened. -/
theorem calm_before_break {part rest : List Char} {c : Char} (closed : outside.run part = outside)
    (stop : breaks c = true) (clean : avoids breaks outside.deeper (part ++ c :: rest) = true) :
    calm outside part = true ∧ avoids breaks outside.deeper rest = true := by
  rw [avoids_append, run_deeper, closed, Bool.and_eq_true] at clean
  cases quiet : calm outside part with
  | false =>
    rw [quiet] at clean
    have later := clean.2
    simp only [Bool.false_eq_true, if_false, avoids, stop, Bool.and_true, Bool.and_eq_true,
      Bool.not_eq_true'] at later
    exact absurd later.1 (by decide)
  | true =>
    rw [quiet] at clean
    have later := clean.2
    simp only [if_true, avoids, Bool.and_eq_true] at later
    rw [after_inert Sound.outside.deeper (inert_of_breaks stop)] at later
    exact ⟨rfl, later.2⟩

theorem tidied_closing (junk : List Char) : Tidied (junk ++ [')']) [')'] := by
  simpa using Tidied.exchange (.closing junk) .nil

/-- Behind a comma, only blanks around commas go when parts are trimmed and joined. -/
theorem tidied_rejoin {rest : List Char} {parts : List (List Char)} (cut : Cut isComma rest parts)
    (junk gap : List Char) (blank : ∀ c ∈ gap, isBlank c = true) :
    Tidied (junk ++ ',' :: (rest ++ [')'])) (',' :: (gap ++ (joinCommas (parts.map trim) ++ [')']))) := by
  induction cut generalizing junk gap with
  | @last part _ _ =>
    obtain ⟨before, after, blank', _, eq⟩ := trim_split part
    have old : junk ++ ',' :: (part ++ [')']) =
        (junk ++ ',' :: before) ++ (trim part ++ (after ++ [')'])) := by
      conv_lhs => rw [eq]
      simp
    rw [old]
    exact .exchange (.comma junk blank' blank) (.keep _ (tidied_closing after))
  | @more part rest c parts _ _ cutter others ih =>
    have comma : c = ',' := of_decide_eq_true cutter
    subst comma
    obtain ⟨before, after, blank', _, eq⟩ := trim_split part
    have old : junk ++ ',' :: (part ++ ',' :: rest ++ [')']) =
        (junk ++ ',' :: before) ++ (trim part ++ (after ++ ',' :: (rest ++ [')']))) := by
      conv_lhs => rw [eq]
      simp
    rw [old, List.map_cons, joinCommas_cons (by simpa using others.ne_nil)]
    simpa using Tidied.exchange (.comma junk blank' blank) (.keep (trim part) (ih after [] (by simp)))

theorem tidied_call {name body body' : List Char} (lowered : lowerChars name = "var".toList)
    (tidied : Tidied ('(' :: (body ++ [')'])) ('(' :: (body' ++ [')']))) :
    Tidied (call name body) (call "var".toList body') :=
  .same (folded_of_lowered lowered (by decide +kernel) (by decide))
    (fun member => absurd member (by decide)) tidied

/-- The first part of a body goes as it is, but for the blanks around it. -/
theorem tidied_first {part rest rest' : List Char} (later : ∀ junk, Tidied (junk ++ rest) rest') :
    Tidied ('(' :: (part ++ rest)) ('(' :: (trim part ++ rest')) := by
  obtain ⟨before, after, blank, _, eq⟩ := trim_split part
  have old : '(' :: (part ++ rest) = ('(' :: before) ++ (trim part ++ (after ++ rest)) := by
    conv_lhs => rw [eq]
    simp
  rw [old]
  exact @Tidied.exchange _ ['('] _ _ (.opening blank (by simp)) (.keep _ (later after))

section Reference

variable {levels : Nat} {name body part : List Char} {others : List (List Char)} {written : String}

theorem cut_first (cut : Cut isComma body (part :: others)) :
    ∃ junk, body = part ++ junk ∧ avoids isComma outside part = true ∧ outside.run part = outside := by
  cases cut with
  | last whole closed => exact ⟨[], by simp, whole, closed⟩
  | more whole closed _ _ => exact ⟨_, rfl, whole, closed⟩

theorem cut_others (cut : Cut isComma body (part :: others)) (more : others ≠ []) :
    ∃ rest, body = part ++ ',' :: rest ∧ Cut isComma rest others := by
  cases cut with
  | last => exact absurd rfl more
  | more _ _ cutter cut =>
    have comma := of_decide_eq_true cutter
    subst comma
    exact ⟨_, rfl, cut⟩

theorem cut_space {cs : List Char} {parts : List (List Char)} (cut : Cut isComma cs parts) :
    ∃ parts', Cut isComma (' ' :: cs) parts' ∧ parts'.map trim = parts.map trim := by
  have space : ∀ cs : List Char, trim (' ' :: cs) = trim cs := fun cs =>
    @trim_blanks [' '] cs blank_space
  cases cut with
  | last whole closed => exact ⟨[' ' :: cs], .last whole closed, by simp [space]⟩
  | @more part rest c parts whole closed cutter others =>
    exact ⟨(' ' :: part) :: parts, @Cut.more _ (' ' :: part) _ _ _ whole closed cutter others, by simp [space]⟩

theorem toList_var (name : List Char) : ("var(" ++ String.ofList name ++ ")").toList = call "var".toList name := by
  simp [call, String.toList_append]

theorem toList_var_fallback (name : List Char) (fallback : String) :
    ("var(" ++ String.ofList name ++ ", " ++ fallback ++ ")").toList =
      call "var".toList (name ++ ',' :: ' ' :: fallback.toList) := by
  simp [call, String.toList_append]

/-- A call of `var` that names no variable stays, but for the case of its name. -/
theorem text_call_trip (callable : Callable name) (lowered : lowerChars name = "var".toList)
    (solid : Solid (call name body)) (cut : Cut isComma body (part :: others))
    (read : readVar (readAt colors levels) body = some (.unparsed (String.ofList (call "var".toList body)))) :
    TokenTrip colors places (readAt colors levels) (call name body)
      (.unparsed (String.ofList (call "var".toList body))) (call "var".toList body) := by
  have closed := cut.run_eq fun c comma => inert_of_comma comma
  have inside : Sealed body := ⟨closed, (solid_call_iff callable closed).mp solid⟩
  refine ⟨⟨_, rfl, ?_⟩, solid_call callable_var inside, fun quiet => ?_, tidied_call lowered (.refl _)⟩
  · rw [readToken_var, read]
  · rw [calm_call_iff callable closed] at quiet
    rw [calm_call_iff callable_var closed, quiet]

/-- A reference without a fallback. -/
theorem bare_call_trip (callable : Callable name) (lowered : lowerChars name = "var".toList)
    (solid : Solid (call name body)) (cut : Cut isComma body (part :: others))
    (dashes : "--".toList.isPrefixOf (trim part) = true) :
    TokenTrip colors places (readAt colors levels) (call name body)
      (.var (String.ofList (trim part)) none) (call "var".toList (trim part)) := by
  have closed := cut.run_eq fun c comma => inert_of_comma comma
  have clean := (solid_call_iff callable closed).mp solid
  obtain ⟨junk, eq, whole, closed'⟩ := cut_first cut
  have ended : outside.run (trim part) = outside := (run_trim Sound.outside part).trans closed'
  have again : Cut isComma (trim part) [trim part] := .last (avoids_trim Sound.outside whole) ended
  have inside : Sealed (trim part) := by
    rw [eq, avoids_append, Bool.and_eq_true] at clean
    exact ⟨ended, avoids_trim Sound.outside.deeper clean.1⟩
  refine ⟨⟨.var (String.ofList (trim part)) none, rfl, ?_⟩, solid_call callable_var inside,
    fun quiet => ?_, tidied_call lowered ?_⟩
  · rw [readToken_var, readVar_of_cut again, trim_trim, dashes]
    rfl
  · rw [calm_call_iff callable closed, eq, calm, avoids_append, Bool.and_eq_true] at quiet
    rw [calm_call_iff callable_var ended]
    exact avoids_trim Sound.outside quiet.1
  · rw [eq, List.append_assoc]
    exact tidied_first fun after => by simpa using tidied_closing (after ++ junk)

/-- A reference with a fallback, given the trip of the fallback. -/
theorem fallback_call_trip (callable : Callable name) (lowered : lowerChars name = "var".toList)
    (solid : Solid (call name body)) (cut : Cut isComma body (part :: others))
    (dashes : "--".toList.isPrefixOf (trim part) = true)
    (filled : joinCommas (others.map trim) ≠ []) {fallback : Value}
    (trip : TextTrip colors places levels (joinCommas (others.map trim)) fallback written.toList) :
    TokenTrip colors places (readAt colors levels) (call name body)
      (.var (String.ofList (trim part)) (some fallback))
      (call "var".toList (trim part ++ ',' :: ' ' :: written.toList)) := by
  have closed := cut.run_eq fun c comma => inert_of_comma comma
  have clean := (solid_call_iff callable closed).mp solid
  have more : others ≠ [] := by rintro rfl; exact filled rfl
  obtain ⟨_, _, whole, closed'⟩ := cut_first cut
  obtain ⟨rest, rfl, cut'⟩ := cut_others cut more
  obtain ⟨quietPart, cleanRest⟩ := calm_before_break closed' (by decide) clean
  have ended : outside.run (trim part) = outside := (run_trim Sound.outside part).trans closed'
  have quietName : calm outside (trim part) = true := avoids_trim Sound.outside quietPart
  have inside : Sealed (joinCommas (others.map trim)) :=
    ⟨cut'.rejoin.run_eq fun c comma => inert_of_comma comma,
      cut'.rejoin_avoids Sound.outside.deeper cleanRest⟩
  have inside' := trip.sealed inside
  -- behind the name the text goes on one parenthesis further in
  have further : outside.deeper.run (trim part) = outside.deeper := by
    rw [run_deeper, quietName, ended]
    rfl
  have closedNew : outside.run (trim part ++ ',' :: ' ' :: written.toList) = outside := by
    rw [run_append, ended]
    exact inside'.closed
  have sealedNew : Sealed (trim part ++ ',' :: ' ' :: written.toList) := by
    refine ⟨closedNew, ?_⟩
    rw [avoids_append, avoids_deeper_of_calm quietName, further]
    exact inside'.whole
  obtain ⟨again, settled, readAgain⟩ := trip.back
  refine ⟨⟨.var (String.ofList (trim part)) (some again), ?_, ?_⟩, solid_call callable_var sealedNew,
    fun quiet => ?_, tidied_call lowered ?_⟩
  · rw [settled?, settled]
    rfl
  · obtain ⟨parts, cutNew, joined⟩ := trip.neat cut'.neat_rejoin
    obtain ⟨parts', cutSpace, same⟩ := cut_space cutNew
    have cutAgain : Cut isComma (trim part ++ ',' :: (' ' :: written.toList)) (trim part :: parts') :=
      .more (avoids_trim Sound.outside whole) ended rfl cutSpace
    rw [readToken_var, readVar_of_cut cutAgain, trim_trim, dashes, same, joined,
      if_neg (trip.filled filled), readAgain]
    rfl
  · rw [calm_call_iff callable closed, calm, avoids_append, Bool.and_eq_true, closed'] at quiet
    have quietRest : calm outside rest = true := quiet.2
    have quietWritten := trip.quiet inside (cut'.rejoin_avoids Sound.outside quietRest)
    rw [calm_call_iff callable_var closedNew, calm, avoids_append, ended, Bool.and_eq_true]
    exact ⟨quietName, quietWritten⟩
  · rw [List.append_assoc, List.append_assoc]
    refine tidied_first fun after => ?_
    have rejoined := tidied_rejoin cut' after [' '] blank_space
    have rewritten := (trip.tidied.append (.refl [')'])).keep [',', ' ']
    exact rejoined.trans rewritten

/-- A call of `var`, given the trips of all fallbacks of fewer levels. -/
theorem call_trip (trips : Trips colors places levels) {value : Value} (callable : Callable name)
    (lowered : lowerChars name = "var".toList) (solid : Solid (call name body))
    (read : readVar (readAt colors levels) body = some value) (plain : Plain value)
    (done : value.write (withPlaces places) = .ok written) :
    TokenTrip colors places (readAt colors levels) (call name body) value written.toList := by
  obtain ⟨part, others, cut⟩ := cut_of_readVar read
  have shape := @readVar_of_cut (readAt colors levels) _ _ _ cut
  rw [read] at shape
  split at shape
  · cases shape
    cases done
    have text : (String.ofList (call "var".toList body)).toList = call "var".toList body :=
      String.toList_ofList
    rw [text]
    exact text_call_trip callable lowered solid cut read
  next dashes =>
    have dashes : "--".toList.isPrefixOf (trim part) = true := by simpa using dashes
    split at shape
    · cases shape
      cases done
      rw [toList_var]
      exact bare_call_trip callable lowered solid cut dashes
    next filled =>
      obtain ⟨fallback, found, eq⟩ := Option.map_eq_some_iff.mp shape.symm
      subst eq
      rw [write] at done
      cases inside : fallback.write (withPlaces places) with
      | error e => rw [inside] at done; cases done
      | ok text =>
        rw [inside] at done
        cases done
        rw [toList_var_fallback]
        have bare : Bare (joinCommas (others.map trim)) := by
          refine bare_joinCommas fun piece member => ?_
          obtain ⟨raw, _, rfl⟩ := List.mem_map.mp member
          exact bare_trim raw
        have plain' : Plain fallback := ⟨plain.colorless, plain.finite⟩
        exact fallback_call_trip callable lowered solid cut dashes filled
          (trips _ _ _ bare found plain' inside)

end Reference

/-! ### Tokens -/

/-- One token, given the trips of all fallbacks of fewer levels. -/
theorem token_trip {levels : Nat} (trips : Trips colors places levels) {token : List Char} {value : Value}
    {written : String} (solid : Solid token) (read : readToken colors (readAt colors levels) token = some value)
    (plain : Plain value) (done : value.write (withPlaces places) = .ok written) :
    TokenTrip colors places (readAt colors levels) token value written.toList := by
  have verbatim : value.settled? places = some value → written = String.ofList token →
      TokenTrip colors places (readAt colors levels) token value written.toList := by
    intro settled eq
    rw [eq, String.toList_ofList]
    exact ⟨⟨value, settled, read⟩, solid, fun quiet => quiet, .refl token⟩
  rcases readToken_cases read plain.colorless with word | text | ⟨x, taken, number⟩ |
    ⟨x, u, rest, taken, lowered, unit⟩ | ⟨name, body, shape, callable, lowered, reference⟩
  · subst word
    cases done
    exact verbatim rfl rfl
  · subst text
    cases done
    exact verbatim rfl rfl
  · subst number
    exact number_trip taken plain done
  · subst unit
    exact unit_trip taken lowered plain done
  · subst shape
    exact call_trip trips callable lowered solid reference plain done

/-- What the tokens of a text become, one by one. -/
def Kept (token written : List Char) : Prop :=
  Solid written ∧ (calm outside token = true → calm outside written = true) ∧ Tidied token written

theorem tokens_trip {levels : Nat} (trips : Trips colors places levels) {tokens : List (List Char)}
    {values : List Value} {texts : List String} (solid : ∀ token ∈ tokens, Solid token)
    (read : tokens.mapM (readToken colors (readAt colors levels)) = some values)
    (colorless : allColorless values = true) (finite : ∀ x ∈ numbersOfAll values, IsFinite x)
    (done : writeAll (withPlaces places) values = .ok texts) :
    (∃ again, allSettled? places values = some again ∧
      (texts.map String.toList).mapM (readToken colors (readAt colors levels)) = some again) ∧
      List.Forall₂ Kept tokens (texts.map String.toList) := by
  induction tokens generalizing values texts with
  | nil =>
    cases read
    cases done
    exact ⟨⟨[], rfl, rfl⟩, .nil⟩
  | cons token tokens ih =>
    rw [List.mapM_cons] at read
    obtain ⟨value, here, read⟩ := Option.bind_eq_some_iff.mp read
    obtain ⟨rest, later, read⟩ := Option.bind_eq_some_iff.mp read
    cases read
    simp only [allColorless, Bool.and_eq_true] at colorless
    simp only [numbersOfAll, List.mem_append] at finite
    rw [writeAll] at done
    cases first : value.write (withPlaces places) with
    | error e => rw [first] at done; cases done
    | ok text =>
      cases others : writeAll (withPlaces places) rest with
      | error e => rw [first, others] at done; cases done
      | ok more =>
        rw [first, others] at done
        cases done
        have plain : Plain value := ⟨colorless.1, fun x member => finite x (.inl member)⟩
        have trip := token_trip trips (solid token (by simp)) here plain first
        obtain ⟨⟨again, settled, back⟩, kept⟩ := ih (fun token member => solid token (by simp [member])) later
          colorless.2 (fun x member => finite x (.inr member)) others
        obtain ⟨value', settled', back'⟩ := trip.back
        refine ⟨⟨value' :: again, ?_, ?_⟩, .cons ⟨trip.solid, trip.quiet, trip.tidied⟩ kept⟩
        · rw [allSettled?, settled', settled]
          rfl
        · rw [List.map_cons, List.mapM_cons, back', back]
          rfl

/-! ### Texts -/

section Rows

variable {text : List Char} {tokens written : List (List Char)}

theorem Kept.solid_all (kept : List.Forall₂ Kept tokens written) : ∀ token ∈ written, Solid token := by
  induction kept with
  | nil => simp
  | cons here _ ih =>
    intro token member
    rcases List.mem_cons.mp member with rfl | member
    · exact here.1
    · exact ih token member

theorem Kept.ne_nil (kept : List.Forall₂ Kept tokens written) (some_ : tokens ≠ []) : written ≠ [] := by
  cases kept with
  | nil => exact absurd rfl some_
  | cons => simp

theorem tidied_row (spaced : Spaced text tokens) (kept : List.Forall₂ Kept tokens written) :
    Tidied text (row written) := by
  induction spaced generalizing written with
  | one token =>
    cases kept with
    | cons here none =>
      cases none
      simpa using here.2.2
  | @more token gap rest tokens apart blank others ih =>
    cases kept with
    | cons here later =>
      have more := Kept.ne_nil later others.ne_nil
      rw [row_cons more]
      exact here.2.2.append (.exchange (.gap apart blank) (ih later))

theorem quiet_row (spaced : Spaced text tokens) (kept : List.Forall₂ Kept tokens written)
    (closed : ∀ token ∈ tokens, outside.run token = outside) (quiet : calm outside text = true) :
    ∀ token ∈ written, calm outside token = true := by
  induction spaced generalizing written with
  | one token =>
    cases kept with
    | cons here none =>
      cases none
      simpa using here.2.1 quiet
  | @more token gap rest tokens apart blank others ih =>
    cases kept with
    | cons here later =>
      rw [calm, avoids_append, avoids_append, closed token (by simp),
        run_inert Sound.outside fun c member => inert_of_blank (blank c member)] at quiet
      simp only [Bool.and_eq_true] at quiet
      intro other member
      rcases List.mem_cons.mp member with rfl | member
      · exact here.2.1 quiet.1
      · exact ih later (fun token member => closed token (by simp [member])) quiet.2.2 other member

theorem sealed_row (spaced : Spaced text tokens) (kept : List.Forall₂ Kept tokens written)
    (closed : ∀ token ∈ tokens, outside.run token = outside)
    (clean : avoids breaks outside.deeper text = true) :
    avoids breaks outside.deeper (row written) = true := by
  induction spaced generalizing written with
  | one token =>
    cases kept with
    | cons here none =>
      cases none
      simpa using avoids_deeper here.1.whole
  | @more token gap rest tokens apart blank others ih =>
    cases kept with
    | cons here later =>
      have more := Kept.ne_nil later others.ne_nil
      obtain ⟨c, gap, rfl⟩ := List.exists_cons_of_ne_nil apart
      have stop : breaks c = true := by simp [breaks, blank c (by simp)]
      rw [List.cons_append] at clean
      obtain ⟨quiet, clean⟩ := calm_before_break (closed token (by simp)) stop clean
      rw [avoids_append, Bool.and_eq_true, run_inert Sound.outside.deeper fun d member =>
        inert_of_blank (blank d (by simp [member]))] at clean
      have quietWritten := here.2.1 quiet
      rw [row_cons more, avoids_append, avoids_deeper_of_calm quietWritten, run_deeper, quietWritten,
        here.1.closed]
      exact ih later (fun token member => closed token (by simp [member])) clean.2

end Rows

/-- A single token is the value, several ones are a tuple. -/
def readTokens (colors : Bool) (levels : Nat) : List (List Char) → Option Value
  | [token] => readToken colors (readAt colors levels) token
  | tokens => (tokens.mapM (readToken colors (readAt colors levels))).map .tuple

/-- A simple text without a comma outside is read by its tokens. -/
theorem readAt_tokens (levels : Nat) {text : List Char} {tokens : List (List Char)} (bare : Bare text)
    (filled : text ≠ []) (simple : isComplex text = false) {listed : List (List Char)}
    (commas : splitTopLevel (.char ',') text = some listed) (few : listed.length ≤ 1)
    (blanks : splitTopLevel .blank text = some tokens) :
    readAt colors (levels + 1) text = readTokens colors levels tokens := by
  have isFilled : text.isEmpty = false := by simpa using filled
  rw [readAt]
  simp only [trim_of_bare bare, isFilled, simple, Bool.or_self, Bool.false_eq_true, if_false, commas,
    blanks, Option.bind_eq_bind, Option.bind_some, Nat.not_lt.mpr few]
  rcases tokens with _ | ⟨token, _ | ⟨second, rest⟩⟩
  · rfl
  · rfl
  · simp only [readTokens, Option.map_eq_bind]
    rfl

/-- Tokens that cannot be cut are read one by one, unless the row of them is complex. -/
theorem readAt_row (levels : Nat) {tokens : List (List Char)} (some_ : tokens ≠ [])
    (solid : ∀ token ∈ tokens, Solid token) (simple : isComplex (row tokens) = false) :
    readAt colors (levels + 1) (row tokens) = readTokens colors levels tokens :=
  readAt_tokens levels (bare_row some_ solid) (row_ne_nil some_ solid) simple
    (split_comma_row some_ solid) (by simp) (split_solid some_ solid)

/-- A trimmed text is kept as it stands or read token by token. -/
theorem readAt_cases {levels : Nat} {text : List Char} {value : Value} (bare : Bare text)
    (read : readAt colors (levels + 1) text = some value) :
    value = .unparsed (String.ofList text) ∨
      isComplex text = false ∧ ∃ tokens, Spaced text tokens ∧ (∀ token ∈ tokens, Solid token) ∧
        readTokens colors levels tokens = some value := by
  by_cases kept : text = [] ∨ isComplex text = true
  · have asText : (text.isEmpty || isComplex text) = true := by simpa using kept
    rw [readAt] at read
    simp only [trim_of_bare bare, asText, if_true, Option.some.injEq] at read
    exact .inl read.symm
  · rw [not_or] at kept
    have simple : isComplex text = false := by simpa using kept.2
    have isFilled : text.isEmpty = false := by simpa using kept.1
    cases commas : splitTopLevel (.char ',') text with
    | none =>
      rw [readAt] at read
      simp [trim_of_bare bare, isFilled, simple, commas] at read
    | some listed =>
      by_cases few : listed.length ≤ 1
      · cases blanks : splitTopLevel .blank text with
        | none =>
          rw [readAt] at read
          simp [trim_of_bare bare, isFilled, simple, commas, blanks, Nat.not_lt.mpr few] at read
        | some tokens =>
          rw [readAt_tokens levels bare kept.1 simple commas few blanks] at read
          obtain ⟨raw, cut, rfl⟩ := (split_comma_iff _ _).mp commas
          obtain ⟨raw', cut', rfl⟩ := (split_blank_iff _ _).mp blanks
          have noComma := (cut.avoids_of_length (by simpa using few)).2
          refine .inr ⟨simple, _, .of_cut cut' kept.1 bare, fun token member => ?_, read⟩
          obtain ⟨member, filled⟩ := List.mem_filter.mp member
          obtain ⟨noBlank, closed, noComma⟩ :=
            cut'.parts_avoid (fun c blank => inert_of_blank blank) noComma token member
          refine ⟨by simpa using filled, ?_, closed⟩
          unfold breaks
          rw [avoids_or, noBlank, noComma]
          rfl
      · rw [readAt] at read
        simp only [trim_of_bare bare, isFilled, simple, Bool.or_self, Bool.false_eq_true, if_false,
          commas, Option.bind_eq_bind, Option.bind_some, Nat.lt_of_not_le few, if_true] at read
        exact .inl (Option.some.inj read).symm

/-- A text that is kept as it stands. -/
theorem verbatim_trip {levels : Nat} {text : List Char} (bare : Bare text)
    (read : readAt colors levels text = some (.unparsed (String.ofList text))) :
    TextTrip colors places levels text (.unparsed (String.ofList text)) text where
  back := ⟨_, rfl, read⟩
  bare := bare
  filled := id
  tidied := .refl text
  sealed := id
  quiet _ := id
  neat := id

/-- A text that is read token by token. -/
theorem row_trip {levels : Nat} {text : List Char} {tokens written : List (List Char)} {value again : Value}
    (simple : isComplex text = false) (spaced : Spaced text tokens) (solid : ∀ token ∈ tokens, Solid token)
    (kept : List.Forall₂ Kept tokens written) (settled : value.settled? places = some again)
    (back : readTokens colors levels written = some again) :
    TextTrip colors places (levels + 1) text value (row written) := by
  have solid' := Kept.solid_all kept
  have some_ := Kept.ne_nil kept spaced.ne_nil
  have tidied := tidied_row spaced kept
  have closed : ∀ token ∈ tokens, outside.run token = outside := fun token member => (solid token member).closed
  have simple' : isComplex (row written) = false := by
    rw [← Bool.not_eq_true]
    intro complex
    rw [tidied.isComplex complex] at simple
    cases simple
  have ended := (cut_row some_ solid').run_eq fun c blank => inert_of_blank blank
  have noComma := row_avoids some_ solid' (by decide) fun token member => (solid' token member).avoids_comma
  have bare := bare_row some_ solid'
  exact {
    back := ⟨again, settled, by rw [readAt_row levels some_ solid' simple', back]⟩
    bare := bare
    filled := fun _ => row_ne_nil some_ solid'
    tidied := tidied
    sealed := fun inside => ⟨ended, sealed_row spaced kept closed inside.whole⟩
    quiet := fun _ quiet => row_avoids some_ solid' (by decide) (quiet_row spaced kept closed quiet)
    neat := fun _ => neat_of_avoids noComma ended bare }

theorem toList_joinBlanks (texts : List String) : (joinBlanks texts).toList = row (texts.map String.toList) :=
  String.toList_intercalate

theorem readTokens_many {levels : Nat} {tokens : List (List Char)} (many : tokens.length ≠ 1) :
    readTokens colors levels tokens =
      (tokens.mapM (readToken colors (readAt colors levels))).map .tuple := by
  rcases tokens with _ | ⟨token, _ | ⟨second, rest⟩⟩
  · rfl
  · exact absurd rfl many
  · rfl

/-- A trimmed text, at every number of levels. -/
theorem text_trip (levels : Nat) : Trips colors places levels := by
  induction levels with
  | zero =>
    intro text value written bare read _ done
    rw [readAt, trim_of_bare bare] at read
    cases read
    cases done
    rw [String.toList_ofList]
    refine verbatim_trip bare ?_
    rw [readAt, trim_of_bare bare]
  | succ levels ih =>
    intro text value written bare read plain done
    rcases readAt_cases bare read with rfl | ⟨simple, tokens, spaced, solid, found⟩
    · cases done
      rw [String.toList_ofList]
      exact verbatim_trip bare read
    · by_cases one : tokens.length = 1
      · obtain ⟨token, rfl⟩ := List.length_eq_one_iff.mp one
        have trip := token_trip ih (solid token (by simp)) found plain done
        obtain ⟨again, settled, back⟩ := trip.back
        have kept : List.Forall₂ Kept [token] [written.toList] :=
          .cons ⟨trip.solid, trip.quiet, trip.tidied⟩ .nil
        simpa using row_trip simple spaced solid kept settled back
      · rw [readTokens_many one] at found
        obtain ⟨values, values_, rfl⟩ := Option.map_eq_some_iff.mp found
        rw [write] at done
        cases texts_ : writeAll (withPlaces places) values with
        | error e => rw [texts_] at done; cases done
        | ok texts =>
          rw [texts_] at done
          cases done
          obtain ⟨⟨again, settled, back⟩, kept⟩ :=
            tokens_trip ih solid values_ plain.colorless plain.finite texts_
          have many : (texts.map String.toList).length ≠ 1 := kept.length_eq ▸ one
          have settled' : (tuple values).settled? places = some (.tuple again) := by
            rw [settled?, settled]
            rfl
          have back' : readTokens colors levels (texts.map String.toList) = some (.tuple again) := by
            rw [readTokens_many many, back]
            rfl
          rw [toList_joinBlanks]
          exact row_trip simple spaced solid kept settled' back'

end Trips

end Retouch.Style

namespace Retouch.Style.Value

open Retouch.Text Retouch.Number Nesting

theorem readAt_trim (colors : Bool) (levels : Nat) (text : List Char) :
    readAt colors levels (trim text) = readAt colors levels text := by
  cases levels with
  | zero => rw [readAt, readAt, trim_trim]
  | succ levels => rw [readAt, readAt, trim_trim]

/-- A text with open quotes or parentheses is kept as it stands. -/
theorem parse_unbalanced {property : String} {text : List Char}
    (unread : readAt (isColorProperty property) nestingLimit text = none) :
    ofChars property text = .unparsed (String.ofList (trim text)) ∧
      ofChars property (trim text) = .unparsed (String.ofList (trim text)) := by
  unfold ofChars
  rw [readAt_trim, unread, trim_trim]
  exact ⟨rfl, rfl⟩

/-- Written with so many places and read again as the value of the property, a value is the same with its
numbers settled. -/
def ReadsBack (property : String) (places : Nat) (value : Value) : Prop :=
  ∃ written, value.write (withPlaces places) = .ok written ∧
    value.settled? places = some (parse property written)

/-- The value of a text reads back, unless one of its numbers cannot be written with that many places. -/
theorem parse_write (property text : String) (places : Nat)
    (colorless : (parse property text).colorless = true)
    (finite : ∀ x ∈ (parse property text).numbers, IsFinite x) :
    (¬Refused places (parse property text) → ReadsBack property places (parse property text)) ∧
      (Refused places (parse property text) →
        (parse property text).write (withPlaces places) = .error (.number (.ofPlaces places))) := by
  rcases write_cases places (parse property text) colorless finite with
    ⟨⟨written, done⟩, allowed⟩ | ⟨failed, refused⟩
  · refine ⟨fun _ => ⟨written, done, ?_⟩, fun refused => absurd refused allowed⟩
    cases read : readAt (isColorProperty property) nestingLimit text.toList with
    | none =>
      obtain ⟨kept, again⟩ := parse_unbalanced read
      have value : parse property text = .unparsed (String.ofList (trim text.toList)) := kept
      rw [value] at done ⊢
      cases done
      rw [parse, String.toList_ofList, again]
      rfl
    | some value =>
      have parsed : parse property text = value := by rw [parse, ofChars, read]; rfl
      rw [parsed] at done colorless finite ⊢
      rw [← readAt_trim] at read
      have trip := text_trip nestingLimit _ _ _ (bare_trim _) read ⟨colorless, finite⟩ done
      obtain ⟨again, settled, back⟩ := trip.back
      rw [settled, parse, ofChars, back]
      rfl
  · exact ⟨fun allowed => absurd refused allowed, fun _ => failed⟩

/-- A length, and a variable in capitals with a number and a quoted comma in its fallback. -/
theorem parse_write_mixed :
    let value := parse "margin" "1.23456px  VAR( --gap , 2e1 'a,b' )"
    value.colorless = true ∧ (∀ x ∈ value.numbers, IsFinite x) ∧ ¬Refused 4 value ∧
      ReadsBack "margin" 4 value := by
  intro value
  have colorless : value.colorless = true := by decide +kernel
  have finite : ∀ x ∈ value.numbers, IsFinite x := by decide +kernel
  have allowed : ¬Refused 4 value := fun refused => absurd refused.1 (by decide)
  exact ⟨colorless, finite, allowed, (parse_write "margin" _ 4 colorless finite).1 allowed⟩

/-- A finite value without a color that does not read back: no number takes so many places. -/
theorem many_places_refused :
    (parse "width" "1px").colorless = true ∧ (∀ x ∈ (parse "width" "1px").numbers, IsFinite x) ∧
      ¬ReadsBack "width" 2147483648 (parse "width" "1px") := by
  refine ⟨by decide +kernel, by decide +kernel, ?_⟩
  rintro ⟨written, done, _⟩
  have failed : (parse "width" "1px").write (withPlaces 2147483648) = .error (.number .precisionTooBig) := rfl
  rw [failed] at done
  cases done

end Retouch.Style.Value
