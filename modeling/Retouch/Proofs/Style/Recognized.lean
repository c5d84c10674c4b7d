import Retouch.Proofs.Style.Trip
import Retouch.Proofs.Text.Case

/-!
# Every text of a color is taken for one

Whether a text looks like a color is told by what it begins with and by tables, not by reading it; and the reader of
values looks first for functions that are kept as text, for lists, numbers and names. Nothing of this hides a color:
a text that is read as a color is a word of letters, a code, or a function whose arguments hold neither quotes nor
parentheses, and each of these forms comes through.

## Main statements

* `Quiet.of_colorOfFunction?`: what the arguments of a color cannot hold.
* `spelling_of_read`: the three forms of the texts of colors.
* `Spelling.solid`, `Spelling.simple`, `Spelling.looks`: each of them is one token, is not kept as text, and looks like
  a color.
* `Spelling.readToken`: how they are read.
* `color_recognized`: every text of a color looks like one, and as the value of a color property it is this color.
-/
namespace Retouch.Style

open Retouch.Text Nesting

variable {c : Char} {cs here before body name token : List Char}

/-! ### Characters of arguments -/

/-- Neither a quote nor a parenthesis, nor the letter that every shadow has. -/
def isQuiet (c : Char) : Bool := !(['\'', '"', '(', ')', 'w', 'W'].contains c)

theorem quiet_of_beyond (far : 128 ≤ c.toNat) : isQuiet c = true := by
  rw [isQuiet, Bool.not_eq_true', ← Bool.not_eq_true, List.contains_iff_mem]
  intro member
  have near : (['\'', '"', '(', ')', 'w', 'W'].all fun d => d.toNat < 128) = true := by decide
  exact absurd (of_decide_eq_true (List.all_eq_true.mp near c member)) (Nat.not_lt.mpr far)

theorem inert_of_quiet (quiet : isQuiet c = true) : isInert c = true := by
  rw [isInert, Bool.not_eq_true', ← Bool.not_eq_true]
  intro mark
  simp only [Bool.or_eq_true, decide_eq_true_eq, or_assoc] at mark
  rcases mark with rfl | rfl | rfl | rfl <;> revert quiet <;> decide

theorem quiet_toLower (ascii : c.toNat < 128) : isQuiet c.toLower = isQuiet c :=
  of_decide_eq_true (of_ascii (p := fun c => decide (isQuiet c.toLower = isQuiet c)) (by decide +kernel) ascii)

/-- A character is quiet just if what becomes of it in lower case is. -/
theorem quiet_iff_of_lowers (lowers : Lowers c here) : (∀ d ∈ here, isQuiet d = true) ↔ isQuiet c = true := by
  cases lowers with
  | plain ascii => rw [List.forall_mem_singleton, quiet_toLower ascii]
  | kelvin | dotted =>
    rw [← List.all_eq_true]
    decide
  | beyond far far' => simp [quiet_of_beyond far, quiet_of_beyond far']

/-- A text of such characters, as the arguments of colors are. -/
def Quiet (cs : List Char) : Prop := ∀ c ∈ cs, isQuiet c = true

namespace Quiet

theorem of_all (all : cs.all isQuiet = true) : Quiet cs := List.all_eq_true.mp all

theorem append {more : List Char} (quiet : Quiet cs) (quiet' : Quiet more) : Quiet (cs ++ more) :=
  fun c member => (List.mem_append.mp member).elim (quiet c) (quiet' c)

theorem lowerAfter_iff : Quiet (lowerAfter before cs) ↔ Quiet cs := by
  constructor
  · intro quiet c member
    obtain ⟨here, lowers, inside⟩ := mem_lowerAfter member before
    exact (quiet_iff_of_lowers lowers).mp fun d found => quiet d (inside found)
  · intro quiet d member
    obtain ⟨c, there, here, lowers, found⟩ := of_mem_lowerAfter member
    exact (quiet_iff_of_lowers lowers).mpr (quiet c there) d found

theorem of_trim (quiet : Quiet (trim cs)) : Quiet cs := by
  obtain ⟨front, back, blank, blank', eq⟩ := trim_split cs
  have gap {c : Char} (blank : isBlank c = true) : isQuiet c = true := of_blank (by decide) blank
  rw [eq]
  exact (append (fun c member => gap (blank c member)) quiet).append fun c member => gap (blank' c member)

theorem of_words (each : ∀ word ∈ words cs, Quiet word) : Quiet cs := by
  intro c member
  cases blank : isBlank c with
  | true => exact of_blank (by decide) blank
  | false =>
    obtain ⟨word, there, inside⟩ := mem_words member blank
    exact each word there c inside

theorem of_splitAll {separator : Char} (quiet : isQuiet separator = true)
    (each : ∀ piece ∈ splitAll separator cs, Quiet piece) : Quiet cs := by
  induction cs with
  | nil => exact fun c member => absurd member List.not_mem_nil
  | cons c rest ih =>
    rw [splitAll] at each
    by_cases same : c = separator
    · rw [if_pos same] at each
      exact List.forall_mem_cons.mpr ⟨same ▸ quiet, ih fun piece there => each piece (List.mem_cons_of_mem _ there)⟩
    · rw [if_neg same] at each
      split at each
      next piece more eq =>
        obtain ⟨first, others⟩ := List.forall_mem_cons.mp each
        obtain ⟨here, later⟩ := List.forall_mem_cons.mp first
        refine List.forall_mem_cons.mpr ⟨here, ih ?_⟩
        rw [eq]
        exact List.forall_mem_cons.mpr ⟨later, others⟩
      next eq =>
        refine List.forall_mem_cons.mpr ⟨each [c] (by simp) c (by simp), ih ?_⟩
        simp [eq]

/-- Nothing of a body is lost when it is split into its arguments, but for blanks, commas and a slash. -/
theorem of_splitArguments (parts : ∀ part ∈ (splitArguments body).1, Quiet part)
    (opacity : ∀ token ∈ (splitArguments body).2, Quiet token) : Quiet body := by
  obtain ⟨front, rest, cut, whole⟩ : ∃ front rest, body.span (· ≠ '/') = (front, rest) ∧ body = front ++ rest := by
    rw [List.span_eq_takeWhile_dropWhile]
    exact ⟨_, _, rfl, List.takeWhile_append_dropWhile.symm⟩
  have ofListed (each : ∀ piece ∈ (splitAll ',' front).map trim, Quiet piece) : Quiet front :=
    of_splitAll (by decide) fun piece there => of_trim (each _ (List.mem_map_of_mem there))
  unfold splitArguments at parts opacity
  rw [cut] at parts opacity
  rw [whole]
  cases rest with
  | nil =>
    -- Without a slash the opacity can be the last one of four between commas.
    dsimp only at parts opacity
    rw [List.append_nil]
    split at parts
    next comma =>
      rw [if_pos comma] at opacity
      refine ofListed fun piece there => ?_
      split at parts
      next a b c d four _ =>
        rw [four] at opacity there
        have four_ : piece ∈ [a, b, c] ∨ piece = d := by simpa [or_assoc] using there
        rcases four_ with first | rfl
        · exact parts piece first
        · exact opacity piece rfl
      next => exact parts piece there
    next => exact of_words parts
  | cons slash rest =>
    have behind : slash = '/' := by
      have stop := List.head?_dropWhile_not (fun c => decide (c ≠ '/')) body
      rw [List.span_eq_takeWhile_dropWhile, Prod.mk.injEq] at cut
      rw [cut.2] at stop
      simpa using stop
    -- Behind a slash there is the opacity, so that all parts between commas are arguments.
    dsimp only at parts opacity
    refine append ?_ (List.forall_mem_cons.mpr ⟨behind ▸ (by decide), ?_⟩)
    · split at parts
      next comma =>
        refine ofListed fun piece there => ?_
        split at parts
        next none_ => cases none_
        next => exact parts piece there
      next => exact of_words parts
    · refine of_trim (opacity _ ?_)
      split
      next =>
        split
        next none_ => cases none_
        next => rfl
      next => rfl

theorem of_numeric (numeric : isNumeric c = true) : isQuiet c = true := by
  by_cases ascii : c.toNat < 128
  · have either := of_ascii (p := fun c => !isNumeric c || isQuiet c) (by decide +kernel) ascii
    rwa [numeric] at either
  · exact quiet_of_beyond (Nat.not_lt.mp ascii)

theorem of_channelUnit? {unit : ChannelUnit} (found : channelUnit? cs = some unit) : Quiet cs := by
  have named : String.ofList (cs.map Char.toLower) ∈ ["", "%", "deg", "turn", "rad", "grad"] := by
    by_contra other
    simp only [List.mem_cons, List.not_mem_nil, or_false, not_or] at other
    simp [channelUnit?, other] at found
  have each : ∀ name ∈ ["", "%", "deg", "turn", "rad", "grad"], name.toList.all isQuiet = true := by decide
  have quiet := of_all (each _ named)
  rw [String.toList_ofList] at quiet
  -- Units are compared in plain lower case, which changes nothing beyond the first 128 characters.
  intro c member
  by_cases ascii : c.toNat < 128
  · exact quiet_toLower ascii ▸ quiet c.toLower (List.mem_map_of_mem member)
  · exact quiet_of_beyond (Nat.not_lt.mp ascii)

theorem of_channel? {scale x : Float} (read : channel? scale token = some x) : Quiet token := by
  unfold channel? at read
  split at read
  next lowered => exact lowerAfter_iff.mp (show Quiet (lowerChars token) by rw [lowered]; exact of_all (by decide))
  next =>
    obtain ⟨⟨number, rest⟩, taken, read⟩ := Option.bind_eq_some_iff.mp read
    obtain ⟨unit, found, -⟩ := Option.bind_eq_some_iff.mp read
    obtain ⟨front, rfl, numeric⟩ := advances_takeNumber taken
    exact append (fun c member => of_numeric (numeric c member)) (of_channelUnit? found)

/-- A function that is read as a color is one of these, and its arguments hold neither quotes nor parentheses. -/
theorem of_colorOfFunction? {name : String} {color : Color} (read : colorOfFunction? name body = some color) :
    name ∈ colorFunctions ∧ Quiet body := by
  rcases cut : splitArguments body with ⟨parts, opacity⟩
  rw [colorOfFunction?, cut] at read
  obtain ⟨alpha, last, channels⟩ := Option.bind_eq_some_iff.mp read
  have last_ : ∀ token ∈ opacity, Quiet token := by
    rintro token rfl
    exact of_channel? last
  suffices known : name ∈ colorFunctions ∧ ∀ part ∈ parts, Quiet part from
    ⟨known.1, of_splitArguments (by rw [cut]; exact known.2) (by rw [cut]; exact last_)⟩
  clear read cut
  -- Whatever the function is, there are three channels.
  have three {a b c : List Char} {p q r : Float} {made : Float → Float → Float → Option Color}
      (read : ((channel? p a).bind fun x => (channel? q b).bind fun y => (channel? r c).bind fun z => made x y z) =
        some color) : ∀ part ∈ [a, b, c], Quiet part := by
    obtain ⟨x, first, read⟩ := Option.bind_eq_some_iff.mp read
    obtain ⟨y, second, read⟩ := Option.bind_eq_some_iff.mp read
    obtain ⟨z, third, -⟩ := Option.bind_eq_some_iff.mp read
    simp only [List.forall_mem_cons, List.not_mem_nil, false_implies, implies_true, and_true]
    exact ⟨of_channel? first, of_channel? second, of_channel? third⟩
  simp only [Option.bind_eq_bind] at channels
  split at channels
  next a b c =>
    have known : name ∈ colorFunctions := by
      by_contra other
      simp only [colorFunctions, List.mem_cons, List.not_mem_nil, or_false, not_or] at other
      simp [other] at channels
    refine ⟨known, ?_⟩
    split_ifs at channels <;> exact three channels
  next space a b c =>
    split at channels
    next color_ =>
      refine ⟨by rw [color_]; decide, ?_⟩
      have spaced {word : List Char} (lowered : lowerChars space = word) (quiet : word.all isQuiet = true) :
          Quiet space := lowerAfter_iff.mp (show Quiet (lowerChars space) from lowered ▸ of_all quiet)
      split_ifs at channels with srgb p3
      · exact List.forall_mem_cons.mpr ⟨spaced srgb (by decide), three channels⟩
      · refine List.forall_mem_cons.mpr ⟨?_, three channels⟩
        rcases (Bool.or_eq_true _ _).mp p3 with long | short
        · exact spaced (of_decide_eq_true long) (by decide)
        · exact spaced (of_decide_eq_true short) (by decide)
      · cases channels
    next => cases channels
  next => cases channels

end Quiet

/-! ### Letters -/

/-- What holds of the letters among the first 128 characters and of four others holds of all letters. -/
theorem of_looseLetter {p : Char → Bool} (plain : asciiChars.all (fun c => !isLooseLetter c || p c) = true)
    (others : ['İ', 'ı', 'ſ', kelvinSign].all p = true) (loose : isLooseLetter c = true) : p c = true := by
  by_cases ascii : c.toNat < 128
  · simpa [loose] using of_ascii plain ascii
  · refine List.all_eq_true.mp others c ?_
    simp only [isLooseLetter, Bool.or_eq_true, decide_eq_true_eq] at loose
    rcases loose with (((alpha | rfl) | rfl) | rfl) | kelvin
    · exact absurd (ascii_of_isAlpha alpha) ascii
    · decide
    · decide
    · decide
    · have same : c = kelvinSign := by rw [kelvinSign, ← kelvin, Char.ofNat_toNat]
      rw [same]
      decide

/-- A text that has only small letters in lower case is made of letters. -/
theorem loose_of_lowered (small : ∀ d ∈ lowerChars cs, d.isLower = true) : ∀ c ∈ cs, isLooseLetter c = true := by
  intro c member
  obtain ⟨here, lowers, inside⟩ := mem_lowerAfter member []
  have letter : ∀ d ∈ here, d.isLower = true := fun d found => small d (inside found)
  -- Only the Kelvin sign and the capital i with a dot become small letters from beyond the first 128 characters.
  cases lowers with
  | plain ascii =>
    have either := of_ascii (p := fun c => !c.toLower.isLower || isLooseLetter c) (by decide +kernel) ascii
    rwa [letter _ (List.mem_singleton_self _)] at either
  | kelvin | dotted => decide
  | @beyond _ d far far' =>
    have alpha : d.isAlpha = true := (Bool.or_eq_true _ _).mpr (.inr (letter d (List.mem_singleton_self _)))
    exact absurd (ascii_of_isAlpha alpha) (Nat.not_lt.mpr far')

/-! ### Texts that are simple -/

/-- Without a parenthesis no function is opened. -/
theorem opensWith_of_noParenthesis {cs : List Char} (none : '(' ∉ cs) (word : List Char) : opensWith word cs = false := by
  rw [← Bool.not_eq_true]
  intro opens
  simp only [opensWith, Bool.and_eq_true] at opens
  obtain ⟨-, opens⟩ := opens
  split at opens
  next rest eq =>
    have inside : '(' ∈ (cs.drop word.length).dropWhile isBlank := by rw [eq]; simp
    exact none (List.drop_subset _ _ (List.dropWhile_subset _ inside))
  next => cases opens

theorem opensSomewhere_of_noParenthesis {cs : List Char} (none : '(' ∉ cs) (word : List Char) (whole before : Bool) :
    opensSomewhere word whole before cs = false := by
  induction cs generalizing before with
  | nil => rfl
  | cons c rest ih =>
    rw [opensSomewhere, opensWith_of_noParenthesis none, ih fun member => none (by simp [member])]
    simp

theorem subset_of_occursIn {word : List Char} (found : occursIn word cs = true) : word ⊆ cs := by
  induction cs with
  | nil =>
    rw [occursIn, List.isEmpty_iff] at found
    simp [found]
  | cons c rest ih =>
    rcases (Bool.or_eq_true _ _).mp found with front | later
    · exact (List.isPrefixOf_iff_prefix.mp front).subset
    · exact List.subset_cons_of_subset c (ih later)

/-- The functions that are kept as text, and gradients. -/
def keptFunctions : List String := "gradient" :: opaqueFunctions

/-- A text is simple where no such function is opened, and nothing is listed that a shadow could be. -/
theorem isComplex_eq_false {cs low : List Char} (lowered : lowerChars cs = low) (listed : ',' ∉ cs ∨ 'w' ∉ low)
    (opens : ∀ word ∈ keptFunctions, ∀ whole, opensSomewhere word.toList whole false low = false) :
    isComplex cs = false := by
  have words : (opaqueFunctions.any fun name => opensSomewhere name.toList true false low) = false := by
    refine List.any_eq_false.mpr fun word member => ?_
    simp [opens word (by simp [keptFunctions, member])]
  have gradient := opens "gradient" (by simp [keptFunctions]) false
  have shadow : (cs.contains ',' && occursIn "shadow".toList low) = false := by
    rcases listed with noComma | without
    · simp [noComma]
    · rw [Bool.and_eq_false_iff, ← Bool.not_eq_true (occursIn _ _)]
      exact .inr fun found => without (subset_of_occursIn found (by decide))
  unfold isComplex
  dsimp only
  rw [lowered, words, gradient, shadow]
  rfl

/-- No color function ends like a function that is kept as text. -/
theorem opensSomewhere_call {name word : String} (known : name ∈ colorFunctions) (kept : word ∈ keptFunctions)
    (whole : Bool) {rest : List Char} (none : '(' ∉ rest) :
    opensSomewhere word.toList whole false (name.toList ++ '(' :: rest) = false := by
  have behind := opensSomewhere_of_noParenthesis none word.toList whole false
  simp only [colorFunctions, List.mem_cons, List.not_mem_nil, or_false] at known
  simp only [keptFunctions, opaqueFunctions, List.mem_cons, List.not_mem_nil, or_false] at kept
  -- With both names given the search runs through the letters to what stands behind them.
  rcases known with rfl | rfl | rfl | rfl | rfl | rfl | rfl <;>
    rcases kept with rfl | rfl | rfl | rfl | rfl | rfl | rfl <;>
    cases whole <;> exact behind

/-! ### How a color is written -/

/-- The words that are colors. -/
def colorWords : List String := "transparent" :: namedColors.map fun entry => entry.1

/-- What a color is written as: a word, a code, or a function. -/
inductive Spelling : List Char → Prop
  | word {cs : List Char} (known : String.ofList (lowerChars cs) ∈ colorWords) : Spelling cs
  | code {digits : List Char} (hex : ∀ c ∈ digits, (hexValue? c).isSome = true) : Spelling ('#' :: digits)
  | call {name body : List Char} (known : String.ofList (lowerChars name) ∈ colorFunctions) (quiet : Quiet body) :
      Spelling (call name body)

theorem isSome_of_mapM {α β : Type} {f : α → Option β} {xs : List α} {ys : List β} (all : xs.mapM f = some ys) :
    ∀ x ∈ xs, (f x).isSome = true := by
  induction xs generalizing ys with
  | nil => simp
  | cons x xs ih =>
    rw [List.mapM_cons] at all
    obtain ⟨y, here, all⟩ := Option.bind_eq_some_iff.mp all
    obtain ⟨others, later, -⟩ := Option.bind_eq_some_iff.mp all
    exact List.forall_mem_cons.mpr ⟨Option.isSome_of_mem here, ih later⟩

theorem hex_of_colorOfHex? {digits : List Char} {color : Color} (read : colorOfHex? digits = some color) :
    ∀ c ∈ digits, (hexValue? c).isSome = true := by
  unfold colorOfHex? at read
  split at read
  case h_5 => cases read
  all_goals exact isSome_of_mapM ‹_›

theorem word_of_colorOfName? {name : String} {color : Color} (read : colorOfName? name = some color) :
    name ∈ colorWords := by
  obtain ⟨entry, found, -⟩ := Option.map_eq_some_iff.mp read
  have same : entry.1 = name := by simpa using List.find?_some found
  exact List.mem_cons_of_mem _ (List.mem_map.mpr ⟨entry, List.mem_of_find?_eq_some found, same⟩)

/-- Every color that is read is written in one of these ways. -/
theorem spelling_of_read {color : Color} (read : Color.ofChars? cs = some color) : Spelling (trim cs) := by
  unfold Color.ofChars? at read
  dsimp only at read
  split at read
  next digits eq =>
    rw [eq]
    exact .code (hex_of_colorOfHex? read)
  next =>
    split at read
    next named => exact .word (word_of_colorOfName? named)
    next =>
      split at read
      next transparent => exact .word (transparent ▸ List.mem_cons_self)
      next =>
        split at read
        next name body parts =>
          obtain ⟨eq, -⟩ := functionParts?_eq_some parts
          obtain ⟨known, quiet⟩ := Quiet.of_colorOfFunction? read
          rw [eq]
          exact .call known quiet.of_trim
        next => cases read

/-! ### Every spelling is one simple token -/

/-- What holds of the hexadecimal digits among the first 128 characters holds of all. -/
theorem of_hexDigit {p : Char → Bool} (plain : asciiChars.all (fun c => !(hexValue? c).isSome || p c) = true)
    (hex : (hexValue? c).isSome = true) : p c = true := by
  have ascii : c.toNat < 128 := by
    have most : c ≤ 'f' := by
      unfold hexValue? at hex
      split at hex
      next digit => exact Char.le_trans digit.2 (by decide)
      next =>
        split at hex
        next small => exact small.2
        next =>
          split at hex
          next capital => exact Char.le_trans capital.2 (by decide)
          next => cases hex
    have most_ : c.toNat ≤ 102 := most
    omega
  simpa [hex] using of_ascii plain ascii

/-- The words and the names of functions, in lower case, are made of small letters. -/
theorem small_of_known (known : String.ofList (lowerChars cs) ∈ colorWords ++ colorFunctions) :
    lowerChars cs ≠ [] ∧ ∀ d ∈ lowerChars cs, d.isLower = true := by
  have each : ((colorWords ++ colorFunctions).all fun word =>
      !word.toList.isEmpty && word.toList.all Char.isLower) = true := by decide +kernel
  have here := List.all_eq_true.mp each _ known
  rw [String.toList_ofList, Bool.and_eq_true, Bool.not_eq_true', List.isEmpty_eq_false_iff] at here
  exact ⟨here.1, List.all_eq_true.mp here.2⟩

/-- So they are made of letters as they stand. -/
theorem letters_of_known (known : String.ofList (lowerChars cs) ∈ colorWords ++ colorFunctions) :
    cs ≠ [] ∧ ∀ c ∈ cs, isLooseLetter c = true := by
  obtain ⟨filled, small⟩ := small_of_known known
  refine ⟨?_, loose_of_lowered small⟩
  rintro rfl
  exact filled rfl

theorem functionName_of_known (known : String.ofList (lowerChars cs) ∈ colorWords ++ colorFunctions) :
    FunctionName cs := by
  obtain ⟨filled, letters⟩ := letters_of_known known
  exact ⟨filled, fun c member => by rw [letters c member, Bool.true_or]⟩

/-- Behind the parenthesis nothing else than the closing one is not quiet, in lower case neither. -/
theorem quiet_or_closing (quiet : Quiet body) {d : Char} (member : d ∈ lowerAfter before (body ++ [')'])) :
    isQuiet d = true ∨ d = ')' := by
  obtain ⟨c, there, here, lowers, found⟩ := of_mem_lowerAfter member
  rcases List.mem_append.mp there with inside | closing
  · exact .inl ((quiet_iff_of_lowers lowers).mpr (quiet c inside) d found)
  · obtain rfl := List.mem_singleton.mp closing
    cases lowers with
    | plain => exact .inr (List.mem_singleton.mp found)
    | beyond far => exact absurd far (by decide)

/-- What stands in lower case in front of the parenthesis is the name of the function. -/
theorem lowered_call (letters : ∀ c ∈ name, isLooseLetter c = true) (quiet : Quiet body) :
    ∃ rest, lowerChars (call name body) = lowerChars name ++ '(' :: rest ∧ '(' ∉ rest ∧ 'w' ∉ rest := by
  have noSigma : 'Σ' ∉ name := fun member => absurd (letters _ member) (by decide)
  have lowered : lowerChars (call name body) =
      lowerChars name ++ '(' :: lowerAfter ('(' :: name.reverse) (body ++ [')']) := by
    rw [call, lowerChars, lowerAfter_append name noSigma, List.append_nil, lowerAfter_cons_of_ne (by decide)]
    rfl
  exact ⟨_, lowered, fun member => absurd (quiet_or_closing quiet member) (by decide), fun member =>
    absurd (quiet_or_closing quiet member) (by decide)⟩

namespace Spelling

theorem solid (spelling : Spelling cs) : Solid cs := by
  cases spelling with
  | word known =>
    have called := functionName_of_known (List.mem_append_left _ known)
    exact called.callable.solid called.filled
  | @code digits hex =>
    have callable : Callable ('#' :: digits) := by
      refine List.forall_mem_cons.mpr ⟨by decide, fun c member => ?_⟩
      have all := of_hexDigit (p := fun c => isInert c && !breaks c) (by decide +kernel) (hex c member)
      simpa using all
    exact callable.solid (by simp)
  | @call name body known quiet =>
    have called := functionName_of_known (List.mem_append_right _ known)
    have inert : ∀ c ∈ body, isInert c = true := fun c member => inert_of_quiet (quiet c member)
    have closed : calm outside body = true := by
      refine avoids_of_none (fun c member => ?_) outside
      have free := inert c member
      simp only [isInert, Bool.not_eq_true', Bool.or_eq_false_iff] at free
      exact free.2
    exact solid_call called.callable ⟨run_inert Sound.outside inert, avoids_deeper_of_calm closed breaks⟩

theorem simple (spelling : Spelling cs) : isComplex cs = false := by
  cases spelling with
  | word known =>
    obtain ⟨-, small⟩ := small_of_known (List.mem_append_left _ known)
    obtain ⟨-, letters⟩ := letters_of_known (List.mem_append_left _ known)
    have noComma : ',' ∉ cs := fun member => absurd (letters _ member) (by decide)
    have noParenthesis : '(' ∉ lowerChars cs := fun member => absurd (small _ member) (by decide)
    exact isComplex_eq_false rfl (.inl noComma) fun word _ whole => opensSomewhere_of_noParenthesis noParenthesis _ _ _
  | @code digits hex =>
    have quiet : Quiet ('#' :: digits) :=
      List.forall_mem_cons.mpr ⟨by decide, fun c member => of_hexDigit (by decide +kernel) (hex c member)⟩
    have low : Quiet (lowerChars ('#' :: digits)) := Quiet.lowerAfter_iff.mpr quiet
    have noParenthesis : '(' ∉ lowerChars ('#' :: digits) := fun member => absurd (low _ member) (by decide)
    have noShadow : 'w' ∉ lowerChars ('#' :: digits) := fun member => absurd (low _ member) (by decide)
    exact isComplex_eq_false rfl (.inr noShadow) fun word _ whole => opensSomewhere_of_noParenthesis noParenthesis _ _ _
  | @call name body known quiet =>
    obtain ⟨-, letters⟩ := letters_of_known (List.mem_append_right _ known)
    obtain ⟨rest, lowered, noParenthesis, noShadow⟩ := lowered_call letters quiet
    have noShadow_ : 'w' ∉ lowerChars name ++ '(' :: rest := by
      have each : ∀ name ∈ colorFunctions, 'w' ∉ name.toList := by decide
      have here := each _ known
      rw [String.toList_ofList] at here
      simp [here, noShadow]
    refine isComplex_eq_false lowered (.inr noShadow_) fun word kept whole => ?_
    have opens := opensSomewhere_call known kept whole noParenthesis
    rwa [String.toList_ofList] at opens

theorem looks (spelling : Spelling cs) : looksLikeColor cs = true := by
  unfold looksLikeColor
  dsimp only
  rw [trim_of_bare spelling.solid.bare]
  cases spelling with
  | word known =>
    have same {word : String} (eq : String.ofList (lowerChars cs) = word) : (word.toList == lowerChars cs) = true := by
      rw [← eq, String.toList_ofList, beq_self_eq_true]
    simp only [Bool.or_eq_true, List.any_eq_true]
    rcases List.mem_cons.mp known with transparent | named
    · exact .inr ⟨"transparent", by decide, same transparent⟩
    · obtain ⟨entry, member, eq⟩ := List.mem_map.mp named
      exact .inl (.inr ⟨entry, member, same eq.symm⟩)
  | @code digits hex =>
    have lowered : lowerChars ('#' :: digits) = '#' :: lowerAfter ['#'] digits := lowerAfter_cons_of_ne (by decide) _ _
    rw [lowered]
    rfl
  | @call name body known quiet =>
    obtain ⟨-, letters⟩ := letters_of_known (List.mem_append_right _ known)
    obtain ⟨rest, lowered, -⟩ := lowered_call letters quiet
    rw [lowered]
    have shape : lowerChars name = (String.ofList (lowerChars name)).toList := (String.toList_ofList).symm
    rw [shape]
    -- With the name given, what the text begins with is found by looking.
    generalize String.ofList (lowerChars name) = known_ at known
    simp only [colorFunctions, List.mem_cons, List.not_mem_nil, or_false] at known
    rcases known with rfl | rfl | rfl | rfl | rfl | rfl | rfl <;> rfl

end Spelling

/-! ### How a spelling is read -/

/-- A text that begins with no digit, sign or point is no number. -/
theorem dimension?_eq_none {rest : List Char} (noDigit : isDigit c = false) (other : c ∉ ['+', '-', '.']) :
    dimension? (c :: rest) = none := by
  simp only [List.mem_cons, List.not_mem_nil, or_false, not_or] at other
  have unsigned : takeSign (c :: rest) = (false, c :: rest) := by
    unfold takeSign
    split <;> simp_all
  have noDigits : (c :: rest).span isDigit = ([], c :: rest) := by simp [List.span_eq_takeWhile_dropWhile, noDigit]
  have noPoint : takeFraction [] (c :: rest) = ([], c :: rest) := by
    unfold takeFraction
    split <;> simp_all
  have unread : takeNumber (c :: rest) = none := by
    simp only [takeNumber, unsigned, noDigits, noPoint]
    rfl
  rw [dimension?, unread]
  rfl

/-- A token that begins with a letter is a function or a word. -/
theorem readToken_of_loose {rest : List Char} (loose : isLooseLetter c = true) (colors : Bool)
    (inner : List Char → Option Value) :
    readToken colors inner (c :: rest) = match functionParts? (c :: rest) with
      | some (name, body) =>
        if String.ofList (lowerChars name) = "var" then readVar inner body
        else if colorFunctions.contains (String.ofList (lowerChars name)) then
          some (((Color.ofChars? (c :: rest)).map .color).getD (.unparsed (String.ofList (c :: rest))))
        else some (.unparsed (String.ofList (c :: rest)))
      | none =>
        if isIdentifier (c :: rest) then
          if colors && looksLikeColor (c :: rest) then
            some (((Color.ofChars? (c :: rest)).map .color).getD (.keyword (String.ofList (c :: rest))))
          else some (.keyword (String.ofList (c :: rest)))
        else some (.unparsed (String.ofList (c :: rest))) := by
  have noNumber := of_looseLetter (p := fun c => !isDigit c && !(['+', '-', '.'].contains c))
    (by decide +kernel) (by decide +kernel) loose
  have noMark := of_looseLetter (p := fun c => !(['#', '\'', '"'].contains c)) (by decide) (by decide) loose
  simp only [Bool.and_eq_true, Bool.not_eq_true', List.contains_eq_mem, decide_eq_false_iff_not] at noNumber
  simp only [Bool.not_eq_true', List.contains_eq_mem, decide_eq_false_iff_not, List.mem_cons, List.not_mem_nil,
    or_false, not_or] at noMark
  unfold readToken
  rw [dimension?_eq_none noNumber.1 noNumber.2]
  dsimp only
  split
  next eq => exact absurd (List.cons.inj eq).1 noMark.1
  next d more _ eq =>
    obtain ⟨rfl, rfl⟩ := List.cons.inj eq
    have noQuote : ¬(c = '\'' ∨ c = '"') := by simp [noMark]
    refine (if_neg noQuote).trans ?_
    cases functionParts? (c :: rest) <;> rfl
  next eq => cases eq

theorem functionParts?_eq_none (without : '(' ∉ cs) : functionParts? cs = none := by
  rw [Option.eq_none_iff_forall_ne_some]
  rintro ⟨name, body⟩ found
  obtain ⟨rfl, -⟩ := functionParts?_eq_some found
  exact without (by simp [call])

theorem named_of_first {rest : List Char} (shape : ((isLooseLetter c || c = '_') &&
      rest.all fun d => isLooseLetter d || ('0' ≤ d && d ≤ '9') || d = '_' || d = '-') = true) :
    ∀ d ∈ c :: rest, (isLooseLetter d || ('0' ≤ d && d ≤ '9') || d = '_' || d = '-') = true := by
  obtain ⟨first, others⟩ := (Bool.and_eq_true _ _).mp shape
  refine List.forall_mem_cons.mpr ⟨?_, List.all_eq_true.mp others⟩
  rcases (Bool.or_eq_true _ _).mp first with letter | low
  · simp [letter]
  · simp [of_decide_eq_true low]

/-- What names are made of. -/
theorem named_of_identifier (identifier : isIdentifier cs = true) :
    ∀ c ∈ cs, (isLooseLetter c || ('0' ≤ c && c ≤ '9') || c = '_' || c = '-') = true := by
  unfold isIdentifier at identifier
  dsimp only at identifier
  split at identifier
  next c rest eq =>
    have named := named_of_first identifier
    rw [← eq] at named
    -- In front of this there are two dashes at most.
    split at named
    · exact List.forall_mem_cons.mpr ⟨by decide, List.forall_mem_cons.mpr ⟨by decide, named⟩⟩
    · exact List.forall_mem_cons.mpr ⟨by decide, named⟩
    · exact named
  next => cases identifier

theorem identifier_of_loose (filled : cs ≠ []) (letters : ∀ c ∈ cs, isLooseLetter c = true) :
    isIdentifier cs = true := by
  obtain ⟨c, rest, rfl⟩ := List.exists_cons_of_ne_nil filled
  have noDash : c ≠ '-' := by
    rintro rfl
    exact absurd (letters '-' List.mem_cons_self) (by decide)
  unfold isIdentifier
  split <;> simp_all

/-- A parenthesis and the mark of a code stand in no name. -/
theorem isIdentifier_eq_false (marked : '(' ∈ cs ∨ '#' ∈ cs) : isIdentifier cs = false := by
  rw [← Bool.not_eq_true]
  intro identifier
  have named := named_of_identifier identifier
  rcases marked with inside | inside
  · exact absurd (named '(' inside) (by decide)
  · exact absurd (named '#' inside) (by decide)

section Reading

variable {color : Color} (read : Color.ofChars? token = some color) (colors : Bool)
  (inner : List Char → Option Value)

include read

/-- A word is read as the color that it names where words name colors. -/
theorem readToken_word (known : String.ofList (lowerChars token) ∈ colorWords) :
    readToken colors inner token = some (if colors || !isIdentifier token then .color color
      else .keyword (String.ofList token)) := by
  obtain ⟨filled, letters⟩ := letters_of_known (List.mem_append_left _ known)
  have looks := (Spelling.word known).looks
  have noFunction : functionParts? token = none :=
    functionParts?_eq_none fun member => absurd (letters _ member) (by decide)
  obtain ⟨c, rest, rfl⟩ := List.exists_cons_of_ne_nil filled
  have loose := letters c List.mem_cons_self
  rw [readToken_of_loose loose, noFunction, identifier_of_loose filled letters, looks, read]
  cases colors <;> rfl

theorem readToken_code {digits : List Char} (code : token = '#' :: digits) :
    readToken colors inner token = some (.color color) := by
  subst code
  have noNumber : dimension? ('#' :: digits) = none := dimension?_eq_none (by decide) (by decide)
  unfold readToken
  rw [noNumber, read]
  rfl

theorem readToken_call (eq : token = call name body) (known : String.ofList (lowerChars name) ∈ colorFunctions) :
    readToken colors inner token = some (.color color) := by
  have called := functionName_of_known (List.mem_append_right _ known)
  obtain ⟨filled, letters⟩ := letters_of_known (List.mem_append_right _ known)
  obtain ⟨c, rest, rfl⟩ := List.exists_cons_of_ne_nil filled
  have loose := letters c List.mem_cons_self
  have parts := functionParts?_call called body
  have other : String.ofList (lowerChars (c :: rest)) ≠ "var" := by
    intro same
    rw [same] at known
    revert known
    decide
  have found : colorFunctions.contains (String.ofList (lowerChars (c :: rest))) = true :=
    List.contains_iff_mem.mpr known
  subst eq
  rw [call, List.cons_append] at parts read ⊢
  rw [readToken_of_loose loose, parts]
  dsimp only
  rw [if_neg other, if_pos found, read]
  rfl

end Reading

/-- A spelling of a color is read as this color, unless it is a word where no colors are named. -/
theorem Spelling.readToken {color : Color} (spelling : Spelling token) (read : Color.ofChars? token = some color)
    (colors : Bool) (inner : List Char → Option Value) :
    readToken colors inner token = some (if colors || !isIdentifier token then .color color
      else .keyword (String.ofList token)) := by
  cases spelling with
  | word known => exact readToken_word read colors inner known
  | @code digits =>
    rw [readToken_code read colors inner rfl, isIdentifier_eq_false (.inr List.mem_cons_self), Bool.not_false,
      Bool.or_true, if_pos rfl]
  | @call name body known =>
    rw [readToken_call read colors inner rfl known, isIdentifier_eq_false (.inl (by simp [Style.call])), Bool.not_false,
      Bool.or_true, if_pos rfl]

/-- A text that is one simple token is read as this token is. -/
theorem parse_token {token : List Char} {value : Value} (solid : Solid token) (simple : isComplex token = false)
    {property : String} (read : ∀ inner, readToken (isColorProperty property) inner token = some value) :
    Value.ofChars property token = value := by
  have one : row [token] = token := by simp
  have tokens := @readAt_row (isColorProperty property) 16 [token] (by simp)
    (fun other member => List.mem_singleton.mp member ▸ solid) (one.symm ▸ simple)
  rw [one] at tokens
  have levels : nestingLimit = 16 + 1 := rfl
  rw [Value.ofChars, levels, tokens, readTokens, read]
  rfl

/-! ### Colors as values -/

theorem ofChars_trim (property : String) (text : List Char) :
    Value.ofChars property (trim text) = Value.ofChars property text := by
  rw [Value.ofChars, Value.ofChars, Value.readAt_trim, trim_trim]

theorem Color.ofChars?_trim (text : List Char) : Color.ofChars? (trim text) = Color.ofChars? text := by
  rw [Color.ofChars?, Color.ofChars?, trim_trim]

/-- What is read as a color is this color as the value of every property, unless it is a word and the property is none
whose words name colors. -/
theorem ofChars_of_read {text : List Char} {color : Color} (read : Color.ofChars? text = some color) (property : String) :
    Value.ofChars property text = if isColorProperty property || !isIdentifier (trim text) then .color color
      else .keyword (String.ofList (trim text)) := by
  have spelling := spelling_of_read read
  -- Both readers trim first, so only the trimmed text counts.
  rw [← Color.ofChars?_trim] at read
  rw [← ofChars_trim]
  exact parse_token spelling.solid spelling.simple fun inner => spelling.readToken read _ inner

/-- Functions and codes are colors as the value of every property. -/
theorem ofChars_of_marked {text : List Char} {color : Color} (read : Color.ofChars? text = some color)
    (marked : '(' ∈ text ∨ '#' ∈ text) (property : String) : Value.ofChars property text = .color color := by
  have kept : '(' ∈ trim text ∨ '#' ∈ trim text := marked.imp (mem_trim · (by decide)) (mem_trim · (by decide))
  rw [ofChars_of_read read, isIdentifier_eq_false kept, Bool.not_false, Bool.or_true, if_pos rfl]

/-- Every text that is read as a color looks like one, and is not among those that are kept as text. So as the value of
a property whose words may name colors it is this color; and as the value of any other one too, unless it is a word. -/
theorem color_recognized {s : String} {color : Color} (read : Color.parse? s = some color) :
    looksLikeColor s.toList = true ∧ isComplex (trim s.toList) = false ∧
      (∀ property, isColorProperty property = true → Value.parse property s = .color color) ∧
      ∀ property, isColorProperty property = false →
        Value.parse property s = if isIdentifier (trim s.toList) then .keyword (trimmed s) else .color color := by
  have spelling := spelling_of_read read
  have looks := spelling.looks
  refine ⟨?_, spelling.simple, fun property names => ?_, fun property other => ?_⟩
  · rwa [looksLikeColor, trim_trim] at looks
  · rw [Value.parse, ofChars_of_read read, names, Bool.true_or, if_pos rfl]
  · rw [Value.parse, ofChars_of_read read, other, Bool.false_or]
    cases isIdentifier (trim s.toList) <;> rfl

/-- A function whose name is written with the Kelvin sign, and a word with it. -/
theorem color_recognized_kelvin :
    (∃ color, Color.parse? " o\u212aLCH(50% none .5turn / 80%)" = some color ∧
      looksLikeColor " o\u212aLCH(50% none .5turn / 80%)".toList = true ∧
      Value.parse "Fill" " o\u212aLCH(50% none .5turn / 80%)" = .color color ∧
      Value.parse "width" " o\u212aLCH(50% none .5turn / 80%)" = .color color) ∧
    ∃ color, Color.parse? "Pin\u212a " = some color ∧ looksLikeColor "Pin\u212a ".toList = true ∧
      Value.parse "Fill" "Pin\u212a " = .color color ∧ Value.parse "width" "Pin\u212a " = .keyword "Pin\u212a" := by
  constructor
  · obtain ⟨color, read⟩ := Option.isSome_iff_exists.mp
      (by decide +kernel : (Color.parse? " o\u212aLCH(50% none .5turn / 80%)").isSome = true)
    obtain ⟨looks, -, named, other⟩ := color_recognized read
    exact ⟨color, read, looks, named "Fill" (by decide +kernel), (other "width" (by decide +kernel)).trans
      (if_neg (by decide +kernel))⟩
  · obtain ⟨color, read⟩ := Option.isSome_iff_exists.mp (by decide +kernel : (Color.parse? "Pin\u212a ").isSome = true)
    obtain ⟨looks, -, named, other⟩ := color_recognized read
    have word : trimmed "Pin\u212a " = "Pin\u212a" := by decide +kernel
    refine ⟨color, read, looks, named "Fill" (by decide +kernel), ?_⟩
    rw [other "width" (by decide +kernel), if_pos (by decide +kernel), word]

end Retouch.Style
