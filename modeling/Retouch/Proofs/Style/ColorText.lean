import Mathlib.Data.List.TakeWhile
import Retouch.Proofs.Style.Recognized

/-!
# Colors from their texts

How the two texts that colors are written as are read: a code of six digits, and a function with its arguments
between spaces, the opacity behind a slash. Both are colors as the value of every property.

The arguments may stand between commas as well, where the opacity is the last one of four. Both ways give the same
parts, whatever is written in them, so a color is read from the one text just if it is read from the other. Of the name
of the function only its lower-case form counts, and of that not the last letter of `rgba` and `hsla`.

## Main statements

* `splitArguments_row`: the arguments of a function are what was put together.
* `ofChars?_opened`: a text that opens a function is read by the name in lower case and what stands behind it.
* `parse_function`: what a function with its arguments is read as.
* `parse_code`: what a code of six digits is read as.
* `splitArguments_commas`: pieces between commas are the arguments, and the fourth one is the opacity.
* `syntaxes_agree`: both ways to write a color are read alike.
-/
namespace Retouch.Style

open Retouch.Text Retouch.Number

/-! ### Arguments -/

/-- A text that the arguments of a function are not split in. -/
structure Piece (token : List Char) : Prop where
  filled : token ≠ []
  noBlank : ∀ c ∈ token, isBlank c = false
  noComma : ',' ∉ token
  noSlash : '/' ∉ token

namespace Piece

variable {token : List Char} (piece : Piece token)

include piece

theorem bare : Bare token where
  first c found := piece.noBlank c (List.mem_of_mem_head? found)
  last c found := piece.noBlank c (List.mem_of_mem_getLast? found)

theorem trim_space : trim (' ' :: token) = token := by
  have front := @trim_blanks [' '] token blank_space
  rw [List.singleton_append] at front
  rw [front, trim_of_bare piece.bare]

end Piece

theorem piece_of_all {token : List Char}
    (all : (!token.isEmpty && token.all fun c => !isBlank c && c != ',' && c != '/') = true) : Piece token := by
  simp only [Bool.and_eq_true, Bool.not_eq_true', List.isEmpty_eq_false_iff, List.all_eq_true, bne_iff_ne] at all
  obtain ⟨filled, each⟩ := all
  exact ⟨filled, fun c member => (each c member).1.1, fun member => (each _ member).1.2 rfl,
    fun member => (each _ member).2 rfl⟩

theorem piece_figures (figures : Figures) : Piece figures.chars := by
  have numeral := figures.numeral
  obtain ⟨front, digit, last, -⟩ := numeral.last
  refine piece_of_all ((Bool.and_eq_true _ _).mpr ⟨by simp [last], List.all_eq_true.mpr fun c member => ?_⟩)
  rcases numeral.chars c member with digit | rfl | rfl
  · exact of_decimal (p := fun c => !isBlank c && c != ',' && c != '/') (by decide) digit
  · decide
  · decide

theorem piece_percent (figures : Figures) : Piece (figures.chars ++ ['%']) := by
  obtain ⟨-, noBlank, noComma, noSlash⟩ := piece_figures figures
  refine ⟨by simp, fun c member => ?_, by simpa using noComma, by simpa using noSlash⟩
  rcases List.mem_append.mp member with here | last
  · exact noBlank c here
  · rw [List.mem_singleton.mp last]
    decide

/-! ### Rows of arguments -/

theorem row_append {first second : List (List Char)} (some_ : first ≠ []) (some_' : second ≠ []) :
    row (first ++ second) = row first ++ ' ' :: row second := by
  induction first with
  | nil => exact absurd rfl some_
  | cons token tokens ih =>
    by_cases more : tokens = []
    · subst more
      rw [List.singleton_append, row_cons some_']
      simp
    · rw [List.cons_append, row_cons (by simp [more]), row_cons more, ih more, List.append_assoc]
      rfl

theorem words_row {tokens : List (List Char)} (each : ∀ token ∈ tokens, Piece token) : words (row tokens) = tokens := by
  rw [row, words_intercalate fun token member => (each token member).noBlank]
  exact List.filter_eq_self.mpr fun token member => decide_eq_true (each token member).filled

/-- The parts of a function, with the opacity behind a slash. -/
def parted (parts : List (List Char)) : Option (List Char) → List (List Char)
  | none => parts
  | some opacity => parts ++ [['/'], opacity]

/-- The parts of a function and its opacity, if it has one, are not split any further. -/
structure Arguments (parts : List (List Char)) (opacity : Option (List Char)) : Prop where
  filled : parts ≠ []
  each : ∀ part ∈ parts, Piece part
  last : ∀ token ∈ opacity, Piece token

section Arguments

variable {parts : List (List Char)} {opacity : Option (List Char)} (arguments : Arguments parts opacity)

include arguments

/-- The arguments of a function are what was put together. -/
theorem splitArguments_row : splitArguments (row (parted parts opacity)) = (parts, opacity) := by
  have plain : ∀ c ∈ row parts, (c ≠ '/' : Bool) = true := by
    intro c member
    rcases mem_intercalate member with space | ⟨part, there, inside⟩
    · exact List.mem_singleton.mp space ▸ by decide
    · exact decide_eq_true fun slash => (arguments.each part there).noSlash (slash ▸ inside)
  have noComma : ',' ∉ row parts := by
    intro member
    rcases mem_intercalate member with space | ⟨part, there, inside⟩
    · exact absurd space (by decide)
    · exact (arguments.each part there).noComma inside
  unfold splitArguments
  cases opacity with
  | none =>
    have whole : (row parts).span (· ≠ '/') = (row parts, []) := by
      rw [List.span_eq_takeWhile_dropWhile, List.takeWhile_eq_self_iff.mpr plain, List.dropWhile_eq_nil_iff.mpr plain]
    simp only [parted, whole, List.contains_eq_mem, noComma, decide_false, Bool.false_eq_true, if_false,
      words_row arguments.each]
  | some alpha =>
    -- The slash is a token of its own in the row; in front of it a space is left, which counts for nothing.
    have split : row (parts ++ [['/'], alpha]) = (row parts ++ [' ']) ++ '/' :: ' ' :: alpha := by
      rw [row_append arguments.filled (by simp)]
      simp [row]
    have plain' : ∀ c ∈ row parts ++ [' '], (c ≠ '/' : Bool) = true := by
      intro c member
      rcases List.mem_append.mp member with here | there
      · exact plain c here
      · rw [List.mem_singleton.mp there]
        decide
    have cut : (row (parts ++ [['/'], alpha])).span (· ≠ '/') = (row parts ++ [' '], '/' :: ' ' :: alpha) := by
      rw [split, List.span_eq_takeWhile_dropWhile, List.takeWhile_append_of_pos plain',
        List.dropWhile_append_of_pos plain']
      simp
    have noComma' : ',' ∉ row parts ++ [' '] := by simpa using noComma
    simp only [parted, cut, (arguments.last alpha rfl).trim_space, List.contains_eq_mem, noComma', decide_false,
      Bool.false_eq_true, if_false, words_append_blanks blank_space, words_row arguments.each]

theorem Arguments.bare : Bare (row (parted parts opacity)) := by
  refine (bare_intercalate [' '] (by cases opacity <;> simp [parted, arguments.filled]) fun part member => ?_).2
  have piece {part : List Char} (here : Piece part) : part ≠ [] ∧ Bare part := ⟨here.filled, here.bare⟩
  cases opacity with
  | none => exact piece (arguments.each part member)
  | some token =>
    rcases List.mem_append.mp member with here | there
    · exact piece (arguments.each part here)
    · rcases List.mem_cons.mp there with rfl | there
      · exact ⟨by simp, (trim_eq_self_iff _).mp rfl⟩
      · exact List.mem_singleton.mp there ▸ piece (arguments.last token rfl)

end Arguments

/-! ### Functions -/

/-- Names of colors have no parenthesis. -/
theorem colorOfName?_eq_none {cs : List Char} (opening : '(' ∈ cs) :
    colorOfName? (String.ofList cs) = none ∧ String.ofList cs ≠ "transparent" := by
  have other {name : String} (without : '(' ∉ name.toList) : String.ofList cs ≠ name := by
    rintro rfl
    exact without (by simpa using opening)
  refine ⟨?_, other (by decide)⟩
  have each : ∀ entry ∈ namedColors, '(' ∉ entry.1.toList := by decide
  unfold colorOfName?
  rw [List.find?_eq_none.mpr fun entry member => ?_]
  · rfl
  · simpa using (other (each entry member)).symm

theorem trim_opened {name : List Char} (called : FunctionName name) (rest : List Char) :
    trim (name ++ '(' :: rest) = name ++ '(' :: trimEnd rest := by
  obtain ⟨c, more, rfl⟩ := List.exists_cons_of_ne_nil called.filled
  rw [trim_eq, dropWhile_eq_self (fun d found => ?_), trimEnd_append_cons (by decide)]
  exact called.noBlank d (by simp_all)

/-- A text that opens a function is read by the name in lower case and what stands behind the parenthesis. -/
theorem ofChars?_opened {name : List Char} (called : FunctionName name) (rest : List Char) :
    Color.ofChars? (name ++ '(' :: rest) = (inside? (trimEnd rest)).bind fun body =>
      colorOfFunction? (String.ofList (lowerChars name)) (trim body) := by
  have opening : '(' ∈ lowerChars (name ++ '(' :: trimEnd rest) :=
    toLower_mem_lowerChars (c := '(') (by decide) (by simp)
  obtain ⟨unnamed, opaque_⟩ := colorOfName?_eq_none opening
  unfold Color.ofChars?
  dsimp only
  rw [trim_opened called, unnamed, functionParts?_opened called]
  split
  next digits eq =>
    obtain ⟨c, more, rfl⟩ := List.exists_cons_of_ne_nil called.filled
    obtain ⟨rfl, -⟩ := List.cons.inj eq
    exact absurd (called.letters '#' List.mem_cons_self) (by decide)
  next =>
    rw [if_neg opaque_]
    cases inside? (trimEnd rest) <;> rfl

theorem ofChars?_closed {name body : List Char} (called : FunctionName name) (bare : Bare body) :
    Color.ofChars? (call name body) = colorOfFunction? (String.ofList (lowerChars name)) body := by
  have closed : trimEnd (body ++ [')']) = body ++ [')'] := trimEnd_append_cons (c := ')') (by decide) body []
  rw [call, ofChars?_opened called, closed, inside?_closed, Option.bind_some, trim_of_bare bare]

/-- What a function with its arguments is read as. -/
theorem parse_function {name : String} (known : name ∈ colorFunctions) {parts : List (List Char)}
    {opacity : Option (List Char)} (arguments : Arguments parts opacity) {color : Color}
    (read : colorOfFunction? name (row (parted parts opacity)) = some color) (property : String) :
    Value.parse property (String.ofList (call name.toList (row (parted parts opacity)))) = .color color := by
  have each : ∀ name ∈ colorFunctions, String.ofList (lowerChars name.toList) = name := by decide +kernel
  have lowered := each name known
  have called : FunctionName name.toList :=
    functionName_of_known (List.mem_append_right _ (lowered.symm ▸ known))
  have read_ : Color.ofChars? (call name.toList (row (parted parts opacity))) = some color := by
    rw [ofChars?_closed called arguments.bare, lowered, read]
  rw [Value.parse, String.toList_ofList]
  exact ofChars_of_marked read_ (.inl (by simp [call])) property

/-! ### Codes -/

/-- Two digits for each of three bytes. -/
def code (r g b : Nat) : List Char := '#' :: (hexChars 2 r ++ hexChars 2 g ++ hexChars 2 b)

section Code

variable {r g b : Nat} (red : r < 256) (green : g < 256) (blue : b < 256)

include red green blue

theorem code_eq : code r g b = '#' :: [Nat.digitChar (r / 16), Nat.digitChar (r % 16), Nat.digitChar (g / 16),
    Nat.digitChar (g % 16), Nat.digitChar (b / 16), Nat.digitChar (b % 16)] := by
  rw [code, hexChars_two r red, hexChars_two g green, hexChars_two b blue]
  rfl

theorem hex_code : Spelling (code r g b) := by
  have digits : ∀ d < 16, (hexValue? (Nat.digitChar d)).isSome = true := by decide
  rw [code_eq red green blue]
  refine .code fun c member => ?_
  simp only [List.mem_cons, List.not_mem_nil, or_false] at member
  rcases member with rfl | rfl | rfl | rfl | rfl | rfl <;> exact digits _ (by omega)

theorem ofChars?_code : Color.ofChars? (code r g b) =
    some (.make .srgb ⟨ofNat r / 255.0, ofNat g / 255.0, ofNat b / 255.0⟩ 1.0) := by
  have digit {n : Nat} (small : n < 256) : hexValue? (Nat.digitChar (n / 16)) = some (n / 16) ∧
      hexValue? (Nat.digitChar (n % 16)) = some (n % 16) ∧ hexShare (n / 16) (n % 16) = ofNat n / 255.0 := by
    refine ⟨hexValue?_digitChar _ (by omega), hexValue?_digitChar _ (by omega), ?_⟩
    rw [hexShare, Nat.div_add_mod]
  obtain ⟨high, low, share⟩ := digit red
  obtain ⟨high', low', share'⟩ := digit green
  obtain ⟨high'', low'', share''⟩ := digit blue
  unfold Color.ofChars?
  dsimp only
  rw [trim_of_bare (hex_code red green blue).solid.bare, code_eq red green blue]
  simp only [colorOfHex?, List.mapM_cons, List.mapM_nil, high, low, high', low', high'', low'', Option.bind_eq_bind,
    Option.bind_some, Option.pure_def, share, share', share'']

/-- What a code of six digits is read as. -/
theorem parse_code (property : String) : Value.parse property (String.ofList (code r g b)) =
    .color (.make .srgb ⟨ofNat r / 255.0, ofNat g / 255.0, ofNat b / 255.0⟩ 1.0) := by
  rw [Value.parse, String.toList_ofList]
  exact ofChars_of_marked (ofChars?_code red green blue) (.inr List.mem_cons_self) property

end Code

/-! ### Arguments between commas -/

section Syntaxes

variable {name rest token : List Char} {parts : List (List Char)}

theorem splitAll_of_not_mem {separator : Char} (none : separator ∉ token) : splitAll separator token = [token] := by
  induction token with
  | nil => rfl
  | cons c token ih =>
    obtain ⟨other, none⟩ := not_or.mp (mt List.mem_cons.mpr none)
    rw [splitAll, if_neg (Ne.symm other), ih none]

theorem splitAll_append {separator : Char} (none : separator ∉ token) (rest : List Char) :
    splitAll separator (token ++ separator :: rest) = token :: splitAll separator rest := by
  induction token with
  | nil => rw [List.nil_append, splitAll, if_pos rfl]
  | cons c token ih =>
    obtain ⟨other, none⟩ := not_or.mp (mt List.mem_cons.mpr none)
    rw [List.cons_append, splitAll, if_neg (Ne.symm other), ih none]

/-- The pieces with a comma and a space between them. -/
abbrev commaRow (parts : List (List Char)) : List Char := [',', ' '].intercalate parts

theorem commaRow_cons {part : List Char} (more : parts ≠ []) :
    commaRow (part :: parts) = part ++ ',' :: ' ' :: commaRow parts := by
  rw [commaRow, List.intercalate_cons_of_ne_nil more, List.append_assoc]
  rfl

/-- Between the commas stand the pieces, some of them with a blank in front. -/
theorem splitAll_commaRow (filled : parts ≠ []) (each : ∀ part ∈ parts, Piece part) :
    (splitAll ',' (commaRow parts)).map trim = parts ∧ (splitAll ',' (' ' :: commaRow parts)).map trim = parts := by
  induction parts with
  | nil => exact absurd rfl filled
  | cons part parts ih =>
    obtain ⟨piece, each⟩ := List.forall_mem_cons.mp each
    have noComma : ',' ∉ ' ' :: part := by simpa using piece.noComma
    by_cases more : parts = []
    · subst more
      rw [commaRow, List.intercalate_singleton, splitAll_of_not_mem piece.noComma, splitAll_of_not_mem noComma,
        List.map_singleton, List.map_singleton, trim_of_bare piece.bare, piece.trim_space]
      exact ⟨rfl, rfl⟩
    · obtain ⟨-, later⟩ := ih more each
      rw [commaRow_cons more, ← List.cons_append, splitAll_append piece.noComma, splitAll_append noComma, List.map_cons,
        List.map_cons, later, trim_of_bare piece.bare, piece.trim_space]
      exact ⟨rfl, rfl⟩

/-- Three pieces between commas are the arguments, and the opacity may be a fourth one. -/
theorem splitArguments_commas {opacity : Option (List Char)} (three : parts.length = 3)
    (arguments : Arguments parts opacity) :
    splitArguments (commaRow (parts ++ opacity.toList)) = (parts, opacity) := by
  have all : ∀ part ∈ parts ++ opacity.toList, Piece part := fun part member =>
    (List.mem_append.mp member).elim (arguments.each part) fun there => arguments.last part (Option.mem_toList.mp there)
  have filled : parts ++ opacity.toList ≠ [] := by simp [arguments.filled]
  have noSlash : ∀ c ∈ commaRow (parts ++ opacity.toList), (c ≠ '/' : Bool) = true := by
    intro c member
    rcases mem_intercalate member with between | ⟨part, there, inside⟩
    · have apart : ([',', ' '].all fun c => c ≠ '/') = true := by decide
      exact List.all_eq_true.mp apart c between
    · exact decide_eq_true fun slash => (all part there).noSlash (slash ▸ inside)
  have whole : (commaRow (parts ++ opacity.toList)).span (· ≠ '/') = (commaRow (parts ++ opacity.toList), []) := by
    rw [List.span_eq_takeWhile_dropWhile, List.takeWhile_eq_self_iff.mpr noSlash,
      List.dropWhile_eq_nil_iff.mpr noSlash]
  have split := (splitAll_commaRow filled all).1
  obtain ⟨a, b, c, rfl⟩ := List.length_eq_three.mp three
  have comma : ',' ∈ commaRow ([a, b, c] ++ opacity.toList) := by
    rw [List.cons_append, commaRow_cons (by simp)]
    simp
  unfold splitArguments
  simp only [whole, List.contains_eq_mem, comma, decide_true, if_true, split]
  cases opacity <;> rfl

/-! ### Both ways -/

/-- The name of a function without the last letter of those that have an opacity in their names. -/
def plainName (name : String) : String :=
  if name = "rgba" then "rgb" else if name = "hsla" then "hsl" else name

theorem colorOfFunction?_plainName (name : String) (body : List Char) :
    colorOfFunction? (plainName name) body = colorOfFunction? name body := by
  unfold plainName
  split
  · subst name
    rfl
  split
  · subst name
    rfl
  · rfl

/-- Both ways to write three arguments, and an opacity, are read alike. -/
theorem ofChars?_syntaxes (called : FunctionName name) {opacity : Option (List Char)} (three : parts.length = 3)
    (arguments : Arguments parts opacity) :
    Color.ofChars? (call name (commaRow (parts ++ opacity.toList))) =
      Color.ofChars? (call name (row (parted parts opacity))) := by
  have bare : Bare (commaRow (parts ++ opacity.toList)) := by
    refine (bare_intercalate _ (by simp [arguments.filled]) fun part member => ?_).2
    have piece : Piece part := (List.mem_append.mp member).elim (arguments.each part) fun there =>
      arguments.last part (Option.mem_toList.mp there)
    exact ⟨piece.filled, piece.bare⟩
  rw [ofChars?_closed called bare, ofChars?_closed called arguments.bare]
  simp only [colorOfFunction?, splitArguments_commas three arguments, splitArguments_row arguments]

/-- The two ways to write three arguments of a color, with an opacity or without one, are read alike, whatever the
arguments are and whether there is such a color or not. The case of the name does not count, nor does the last letter
of a name that has an opacity in it. -/
theorem syntaxes_agree {f a b c d : String} (called : FunctionName f.toList)
    (each : ∀ part ∈ [a, b, c, d], Piece part.toList) :
    Color.parse? (f ++ "(" ++ a ++ ", " ++ b ++ ", " ++ c ++ ", " ++ d ++ ")") =
        Color.parse? (f ++ "(" ++ a ++ " " ++ b ++ " " ++ c ++ " / " ++ d ++ ")") ∧
      Color.parse? (f ++ "(" ++ a ++ ", " ++ b ++ ", " ++ c ++ ")") =
        Color.parse? (f ++ "(" ++ a ++ " " ++ b ++ " " ++ c ++ ")") ∧
      ∀ g, FunctionName g.toList → plainName (lower g) = plainName (lower f) →
        ∀ rest, Color.parse? (g ++ "(" ++ rest) = Color.parse? (f ++ "(" ++ rest) := by
  simp only [List.forall_mem_cons, List.not_mem_nil, false_implies, implies_true, and_true] at each
  obtain ⟨first, second, third, last⟩ := each
  have arguments {opacity : Option (List Char)} (given : ∀ token ∈ opacity, Piece token) :
      Arguments [a.toList, b.toList, c.toList] opacity := ⟨by simp, by simp [first, second, third], given⟩
  refine ⟨?_, ?_, fun g called' same rest => ?_⟩
  · have both := ofChars?_syntaxes called rfl (@arguments (some d.toList) (by simpa using last))
    simpa [Color.parse?, call, parted, row, commaRow, List.intercalate] using both
  · have both := ofChars?_syntaxes called rfl (@arguments none (by simp))
    simpa [Color.parse?, call, parted, row, commaRow, List.intercalate] using both
  · -- What is behind the parenthesis is read by the plain name alone.
    have opened (name : String) (called : FunctionName name.toList) : Color.parse? (name ++ "(" ++ rest) =
        (inside? (trimEnd rest.toList)).bind fun body => colorOfFunction? (plainName (lower name)) (trim body) := by
      have text : (name ++ "(" ++ rest).toList = name.toList ++ '(' :: rest.toList := by simp
      rw [Color.parse?, text, ofChars?_opened called]
      simp only [colorOfFunction?_plainName, lower]
    rw [opened g called', opened f called, same]

/-- Arguments that are those of a color, and others that are not. -/
theorem syntaxes_agree_red :
    (Color.parse? "RGBa(100% 0 none / .5)").isSome ∧ Color.parse? "RGBa(100% red none / .5)" = none ∧
      Color.parse? "RGBa(100%, 0, none, .5)" = Color.parse? "RGBa(100% 0 none / .5)" ∧
      Color.parse? "RGBa(100%, red, none)" = Color.parse? "RGBa(100% red none)" ∧
      Color.parse? "rgb(100% 0 none / .5)" = Color.parse? "RGBa(100% 0 none / .5)" := by
  have called (f : String) (known : f ∈ ["RGBa", "rgb"]) : FunctionName f.toList := by
    simp only [List.mem_cons, List.not_mem_nil, or_false] at known
    rcases known with rfl | rfl <;> exact .of_all (by decide)
  have pieces : ∀ part ∈ ["100%", "0", "red", "none", ".5"], Piece part.toList := by
    simp only [List.forall_mem_cons, List.not_mem_nil, false_implies, implies_true, and_true]
    refine ⟨?_, ?_, ?_, ?_, ?_⟩ <;> exact piece_of_all (by decide)
  have color := syntaxes_agree (called "RGBa" (by simp)) (a := "100%") (b := "0") (c := "none") (d := ".5")
    fun part member => pieces part ((by simp : ["100%", "0", "none", ".5"] ⊆ _) member)
  have none_ := syntaxes_agree (called "RGBa" (by simp)) (a := "100%") (b := "red") (c := "none") (d := ".5")
    fun part member => pieces part ((by simp : ["100%", "red", "none", ".5"] ⊆ _) member)
  exact ⟨by decide +kernel, by decide +kernel, color.1, none_.2.1,
    color.2.2 "rgb" (called "rgb" (by simp)) (by decide +kernel) "100% 0 none / .5)"⟩

end Syntaxes

end Retouch.Style
