import Retouch.Style.Reader
import Retouch.Proofs.Text.Blank

/-!
# Texts that are no more complex

Writing a value anew changes its text in few ways: blanks around commas and parentheses, runs of
blanks, the case of units and function names, and how numbers are written. None of these makes a text
complex that was not. The case is folded first: but for the two forms of the small sigma, which no
function name holds, the lower-case form of a text is that of its characters one by one.

## Main statements

* `folded_append`: folding goes character by character.
* `Tidied.append`: texts that are tidied part by part are tidied.
* `Tidied.isComplex`: a tidied text is complex only if the text was.
-/
namespace Retouch.Style

open Retouch.Text

/-! ### Folding the case -/

/-- Takes the two forms of the small sigma for one. -/
def oneSigma (c : Char) : Char := if c = 'ς' then 'σ' else c

/-- The lower-case form of a text, with one form of the small sigma. -/
def folded (cs : List Char) : List Char := (lowerChars cs).map oneSigma

theorem map_lowerAfter (before cs : List Char) :
    (lowerAfter before cs).map oneSigma = cs.flatMap fun c => folded [c] := by
  induction cs generalizing before with
  | nil => rfl
  | cons c rest ih =>
    rw [lowerAfter, List.map_append, ih, List.flatMap_cons]
    congr 1
    rw [folded, lowerChars, lowerAfter, lowerAfter, List.append_nil]
    by_cases ascii : c.toNat < 128
    · simp only [ascii, if_true]
    · by_cases sigma : c = 'Σ'
      · rw [if_neg ascii, if_neg ascii, if_pos sigma, if_pos sigma]
        split <;> split <;> rfl
      · simp only [ascii, sigma, if_false]

theorem folded_eq (cs : List Char) : folded cs = cs.flatMap fun c => folded [c] := map_lowerAfter [] cs

@[simp] theorem folded_nil : folded [] = [] := rfl

@[simp] theorem folded_append (a b : List Char) : folded (a ++ b) = folded a ++ folded b := by
  rw [folded_eq, List.flatMap_append, ← folded_eq, ← folded_eq]

theorem folded_cons (c : Char) (cs : List Char) : folded (c :: cs) = folded [c] ++ folded cs :=
  folded_append [c] cs

/-- Characters that fold to themselves. -/
theorem folded_eq_self {cs : List Char} (fixed : ∀ c ∈ cs, folded [c] = [c]) : folded cs = cs := by
  induction cs with
  | nil => rfl
  | cons c rest ih =>
    rw [folded_cons, fixed c (by simp), ih fun d member => fixed d (by simp [member])]
    rfl

theorem folded_blank {c : Char} (blank : isBlank c = true) : folded [c] = [c] :=
  of_decide_eq_true (of_blank (p := fun d => decide (folded [d] = [d])) (by decide +kernel) blank)

/-! ### Matching words -/

/-- A text of plain lower-case letters, as the names of functions are. -/
def isName (word : List Char) : Bool := word.all Char.isLower

@[simp] theorem opensWith_nil (word : List Char) : opensWith word [] = false := by
  cases word <;> simp [opensWith]

theorem opensWith_nil_cons (c : Char) (rest : List Char) :
    opensWith [] (c :: rest) = if isBlank c then opensWith [] rest else decide (c = '(') := by
  by_cases blank : isBlank c = true
  · simp [opensWith, blank]
  · by_cases opening : c = '('
    · subst opening
      rfl
    · simp only [opensWith, List.isPrefixOf, List.length_nil, List.drop_zero, blank, opening,
        Bool.true_and, Bool.false_eq_true, if_false, decide_false]
      rw [List.dropWhile_cons_of_neg blank]
      split
      next eq => exact absurd (List.cons.inj eq).1 opening
      next => rfl

@[simp] theorem opensWith_cons (l c : Char) (word rest : List Char) :
    opensWith (l :: word) (c :: rest) = (l == c && opensWith word rest) := by
  simp [opensWith, List.isPrefixOf, Bool.and_assoc]

theorem opensWith_blanks {gap : List Char} (blank : ∀ c ∈ gap, isBlank c = true)
    (rest : List Char) : opensWith [] (gap ++ rest) = opensWith [] rest := by
  induction gap with
  | nil => rfl
  | cons c gap ih =>
    rw [List.cons_append, opensWith_nil_cons, if_pos (blank c (by simp))]
    exact ih fun d member => blank d (by simp [member])

/-- Whether the last character of a text belongs to a word, `before` where there is none. -/
def endsInWord (before : Bool) (cs : List Char) : Bool := cs.foldl (fun _ c => isWord c) before

@[simp] theorem endsInWord_concat (before : Bool) (cs : List Char) (c : Char) :
    endsInWord before (cs ++ [c]) = isWord c := by simp [endsInWord]

theorem isWord_blank {c : Char} (blank : isBlank c = true) : isWord c = false := by
  simpa using of_blank (p := fun d => !isWord d) (by decide +kernel) blank

theorem isLower_blank {c : Char} (blank : isBlank c = true) : c.isLower = false := by
  simpa using of_blank (p := fun d => !d.isLower) (by decide) blank

theorem endsInWord_append (before : Bool) (a b : List Char) :
    endsInWord before (a ++ b) = endsInWord (endsInWord before a) b := List.foldl_append

theorem endsInWord_blanks {gap : List Char} (blank : ∀ c ∈ gap, isBlank c = true) :
    endsInWord false gap = false := by
  induction gap with
  | nil => rfl
  | cons c gap ih =>
    show endsInWord (isWord c) gap = false
    rw [isWord_blank (blank c (by simp))]
    exact ih fun d member => blank d (by simp [member])

/-- A match stays one when no word character stands in front any more. -/
theorem opensSomewhere_apart {word cs : List Char} {whole before : Bool}
    (found : opensSomewhere word whole before cs = true) : opensSomewhere word whole false cs = true := by
  cases before with
  | false => exact found
  | true =>
    cases cs with
    | nil => exact found
    | cons c rest =>
      simp only [opensSomewhere, Bool.or_eq_true, Bool.and_eq_true] at found ⊢
      rcases found with ⟨_, here⟩ | later
      · exact .inl ⟨by simp, here⟩
      · exact .inr later

/-- A match in a text is one in a longer text that ends in it. -/
theorem opensSomewhere_append {word cs : List Char} {whole before : Bool} (front : List Char)
    (found : opensSomewhere word whole (endsInWord before front) cs = true) :
    opensSomewhere word whole before (front ++ cs) = true := by
  induction front generalizing before with
  | nil => exact found
  | cons c front ih =>
    simp only [List.cons_append, opensSomewhere, Bool.or_eq_true]
    exact .inr (ih found)

theorem occursIn_append {word cs : List Char} (front : List Char) (found : occursIn word cs = true) :
    occursIn word (front ++ cs) = true := by
  induction front with
  | nil => exact found
  | cons c front ih =>
    simp only [List.cons_append, occursIn, Bool.or_eq_true]
    exact .inr ih

theorem occursIn_of_append {l : Char} {word cs : List Char} (letter : l.isLower = true)
    {front : List Char} (bare : ∀ c ∈ front, c.isLower = false)
    (found : occursIn (l :: word) (front ++ cs) = true) : occursIn (l :: word) cs = true := by
  induction front with
  | nil => exact found
  | cons c front ih =>
    have other : (l == c) = false := by
      simp only [beq_eq_false_iff_ne, ne_eq]
      rintro rfl
      rw [bare l (by simp)] at letter
      cases letter
    simp only [List.cons_append, occursIn, List.isPrefixOf, other, Bool.false_and,
      Bool.false_or] at found
    exact ih (fun d member => bare d (by simp [member])) found

/-- No match starts at a character that is no letter. -/
theorem opensSomewhere_of_append {l : Char} {word cs : List Char} {whole before : Bool}
    (letter : l.isLower = true) {front : List Char} (bare : ∀ c ∈ front, c.isLower = false)
    (found : opensSomewhere (l :: word) whole before (front ++ cs) = true) :
    opensSomewhere (l :: word) whole (endsInWord before front) cs = true := by
  induction front generalizing before with
  | nil => exact found
  | cons c front ih =>
    have other : (l == c) = false := by
      simp only [beq_eq_false_iff_ne, ne_eq]
      rintro rfl
      rw [bare l (by simp)] at letter
      cases letter
    simp only [List.cons_append, opensSomewhere, opensWith_cons, other, Bool.false_and,
      Bool.and_false, Bool.false_or] at found
    exact ih (fun d member => bare d (by simp [member])) found

/-! ### Matching folded texts -/

section OneSigma

theorem oneSigma_eq_iff {l : Char} (letter : l.isLower = true) (c : Char) :
    (l == oneSigma c) = (l == c) := by
  unfold oneSigma
  split
  next sigma =>
    subst sigma
    have plain : ∀ d ∈ ['ς', 'σ'], (l == d) = false := by
      intro d member
      simp only [beq_eq_false_iff_ne, ne_eq]
      rintro rfl
      simp only [List.mem_cons, List.not_mem_nil, or_false] at member
      rcases member with rfl | rfl <;> revert letter <;> decide
    rw [plain _ (by simp), plain _ (by simp)]
  next => rfl

theorem isBlank_oneSigma (c : Char) : isBlank (oneSigma c) = isBlank c := by
  unfold oneSigma
  split
  next sigma => subst sigma; decide
  next => rfl

theorem isWord_oneSigma (c : Char) : isWord (oneSigma c) = isWord c := by
  unfold oneSigma
  split
  next sigma => subst sigma; decide +kernel
  next => rfl

theorem isPrefixOf_oneSigma {word : List Char} (name : isName word = true) (cs : List Char) :
    word.isPrefixOf (cs.map oneSigma) = word.isPrefixOf cs := by
  induction word generalizing cs with
  | nil => simp
  | cons l word ih =>
    simp only [isName, List.all_cons, Bool.and_eq_true] at name
    cases cs with
    | nil => rfl
    | cons c cs => simp only [List.map_cons, List.isPrefixOf, oneSigma_eq_iff name.1, ih name.2]

theorem opensWith_oneSigma {word : List Char} (name : isName word = true) (cs : List Char) :
    opensWith word (cs.map oneSigma) = opensWith word cs := by
  induction cs generalizing word with
  | nil => rfl
  | cons c cs ih =>
    cases word with
    | nil =>
      rw [List.map_cons, opensWith_nil_cons, opensWith_nil_cons, isBlank_oneSigma, ih rfl]
      have opening : oneSigma c = '(' ↔ c = '(' := by
        unfold oneSigma
        split
        next sigma => subst sigma; decide
        next => rfl
      simp only [opening]
    | cons l word =>
      simp only [isName, List.all_cons, Bool.and_eq_true] at name
      simp only [List.map_cons, opensWith_cons, oneSigma_eq_iff name.1, ih name.2]

theorem opensSomewhere_oneSigma {word : List Char} (name : isName word = true) (whole before : Bool)
    (cs : List Char) :
    opensSomewhere word whole before (cs.map oneSigma) = opensSomewhere word whole before cs := by
  induction cs generalizing before with
  | nil => rfl
  | cons c cs ih =>
    have here := opensWith_oneSigma name (c :: cs)
    rw [List.map_cons] at here
    simp only [List.map_cons, opensSomewhere, here, isWord_oneSigma, ih]

theorem occursIn_oneSigma {word : List Char} (name : isName word = true) (cs : List Char) :
    occursIn word (cs.map oneSigma) = occursIn word cs := by
  induction cs with
  | nil => rfl
  | cons c cs ih =>
    have here := isPrefixOf_oneSigma name (c :: cs)
    rw [List.map_cons] at here
    simp only [List.map_cons, occursIn, here, ih]

end OneSigma

/-- Whether a text is complex shows in its folded form. -/
theorem isComplex_iff (cs : List Char) :
    isComplex cs = true ↔
      (∃ name ∈ opaqueFunctions, opensSomewhere name.toList true false (folded cs) = true) ∨
        opensSomewhere "gradient".toList false false (folded cs) = true ∨
        ',' ∈ cs ∧ occursIn "shadow".toList (folded cs) = true := by
  have names : ∀ name ∈ opaqueFunctions, isName name.toList = true := by decide
  have opaques : (∃ name ∈ opaqueFunctions,
      opensSomewhere name.toList true false (folded cs) = true) ↔
      ∃ name ∈ opaqueFunctions, opensSomewhere name.toList true false (lowerChars cs) = true := by
    refine exists_congr fun name => and_congr_right fun member => ?_
    rw [folded, opensSomewhere_oneSigma (names name member)]
  rw [opaques, folded, opensSomewhere_oneSigma (by decide), occursIn_oneSigma (by decide)]
  simp only [isComplex, Bool.or_eq_true, Bool.and_eq_true, List.any_eq_true, List.contains_iff_mem,
    or_assoc]

/-! ### What a tidied text matches -/

/-- What one text begins with, another one begins with. -/
structure Follows (old new : List Char) : Prop where
  opens : ∀ word, isName word = true → opensWith word new = true → opensWith word old = true
  starts : ∀ word, isName word = true → word.isPrefixOf new = true → word.isPrefixOf old = true

/-- What one text holds, another one holds. -/
structure Holds (old new : List Char) : Prop where
  opens : ∀ word, isName word = true → word ≠ [] → ∀ whole before before',
    (before' = false → before = false) → opensSomewhere word whole before' new = true →
      opensSomewhere word whole before old = true
  occurs : ∀ word, isName word = true → word ≠ [] → occursIn word new = true → occursIn word old = true

namespace Follows

variable {old mid new : List Char}

theorem refl (cs : List Char) : Follows cs cs := ⟨fun _ _ found => found, fun _ _ found => found⟩

theorem trans (first : Follows old mid) (second : Follows mid new) : Follows old new :=
  ⟨fun word name found => first.opens word name (second.opens word name found),
    fun word name found => first.starts word name (second.starts word name found)⟩

theorem append (front : List Char) (follows : Follows old new) :
    Follows (front ++ old) (front ++ new) := by
  induction front with
  | nil => exact follows
  | cons c front ih =>
    constructor
    · intro word name found
      cases word with
      | nil =>
        simp only [List.cons_append, opensWith_nil_cons] at found ⊢
        split
        next blank => rw [if_pos blank] at found; exact ih.opens [] rfl found
        next blank => rw [if_neg blank] at found; exact found
      | cons l word =>
        simp only [isName, List.all_cons, Bool.and_eq_true] at name
        simp only [List.cons_append, opensWith_cons, Bool.and_eq_true] at found ⊢
        exact ⟨found.1, ih.opens word name.2 found.2⟩
    · intro word name found
      cases word with
      | nil => rfl
      | cons l word =>
        simp only [isName, List.all_cons, Bool.and_eq_true] at name
        simp only [List.cons_append, List.isPrefixOf, Bool.and_eq_true] at found ⊢
        exact ⟨found.1, ih.starts word name.2 found.2⟩

end Follows

namespace Holds

variable {old mid new : List Char}

theorem refl (cs : List Char) : Holds cs cs := by
  refine ⟨fun word _ _ whole before before' apart found => ?_, fun _ _ _ found => found⟩
  cases before' with
  | true =>
    cases before with
    | true => exact found
    | false => exact opensSomewhere_apart found
  | false => rw [apart rfl]; exact found

theorem trans (first : Holds old mid) (second : Holds mid new) : Holds old new :=
  ⟨fun word name filled whole before before' apart found =>
      first.opens word name filled whole before before (fun eq => eq)
        (second.opens word name filled whole before before' apart found),
    fun word name filled found => first.occurs word name filled (second.occurs word name filled found)⟩

theorem append (front : List Char) (follows : Follows old new) (holds : Holds old new) :
    Holds (front ++ old) (front ++ new) := by
  induction front with
  | nil => exact holds
  | cons c front ih =>
    have heads : Follows (c :: (front ++ old)) (c :: (front ++ new)) := follows.append (c :: front)
    constructor
    · intro word name filled whole before before' apart found
      simp only [List.cons_append, opensSomewhere, Bool.or_eq_true, Bool.and_eq_true,
        Bool.not_eq_true', Bool.and_eq_false_iff] at found ⊢
      rcases found with ⟨free, here⟩ | later
      · exact .inl ⟨free.imp_right apart, heads.opens word name here⟩
      · exact .inr (ih.opens word name filled whole _ _ (fun eq => eq) later)
    · intro word name filled found
      simp only [List.cons_append, occursIn, Bool.or_eq_true] at found ⊢
      exact found.imp (heads.starts word name) (ih.occurs word name filled)

end Holds

/-! ### Tidied texts -/

def decimals : List Char := ['0', '1', '2', '3', '4', '5', '6', '7', '8', '9']

theorem mem_decimals {c : Char} (digit : c.isDigit = true) : c ∈ decimals := by
  simp only [Char.isDigit, Bool.and_eq_true, decide_eq_true_eq] at digit
  have low : 48 ≤ c.toNat := digit.1
  have high : c.toNat ≤ 57 := digit.2
  have all : ∀ code < 58, 48 ≤ code → Char.ofNat code ∈ decimals := by decide
  simpa using all c.toNat (by omega) low

theorem of_decimal {p : Char → Bool} (all : decimals.all p = true) {c : Char} (digit : c.isDigit = true) :
    p c = true := List.all_eq_true.mp all c (mem_decimals digit)

/-- Digits, signs and points, a digit last: what a number is written as. -/
structure Numeral (cs : List Char) : Prop where
  chars : ∀ c ∈ cs, c.isDigit = true ∨ c = '-' ∨ c = '.'
  last : ∃ front digit, cs = front ++ [digit] ∧ digit.isDigit = true

/-- What may be written differently: gaps, what stands around commas and inside parentheses, numbers. -/
inductive Exchange : List Char → List Char → Prop
  | gap {gap : List Char} (filled : gap ≠ []) (blank : ∀ c ∈ gap, isBlank c = true) : Exchange gap [' ']
  | comma (junk : List Char) {gap gap' : List Char} (blank : ∀ c ∈ gap, isBlank c = true)
      (blank' : ∀ c ∈ gap', isBlank c = true) : Exchange (junk ++ ',' :: gap) (',' :: gap')
  | opening {gap gap' : List Char} (blank : ∀ c ∈ gap, isBlank c = true)
      (blank' : ∀ c ∈ gap', isBlank c = true) : Exchange ('(' :: gap) ('(' :: gap')
  | closing (junk : List Char) : Exchange (junk ++ [')']) [')']
  | number (old : List Char) {new : List Char} (numeral : Numeral new) : Exchange old new

namespace Exchange

variable {old new : List Char}

theorem folded_gap {gap : List Char} (blank : ∀ c ∈ gap, isBlank c = true) : folded gap = gap :=
  folded_eq_self fun c member => folded_blank (blank c member)

theorem filled (exchange : Exchange old new) : new ≠ [] := by
  cases exchange with
  | number _ numeral =>
    obtain ⟨front, digit, rfl, _⟩ := numeral.last
    simp
  | _ => simp

/-- Nothing that is written anew is a letter. -/
theorem plain (exchange : Exchange old new) :
    ∀ c ∈ new, c.isLower = false ∧ folded [c] = [c] := by
  have gaps : ∀ gap : List Char, (∀ c ∈ gap, isBlank c = true) →
      ∀ c ∈ gap, c.isLower = false ∧ folded [c] = [c] := fun gap blank c member =>
    ⟨isLower_blank (blank c member), folded_blank (blank c member)⟩
  cases exchange with
  | gap =>
    intro c member
    rw [List.mem_singleton.mp member]
    decide +kernel
  | closing =>
    intro c member
    rw [List.mem_singleton.mp member]
    decide +kernel
  | comma _ _ blank' =>
    intro c member
    rcases List.mem_cons.mp member with rfl | member
    · decide +kernel
    · exact gaps _ blank' c member
  | opening _ blank' =>
    intro c member
    rcases List.mem_cons.mp member with rfl | member
    · decide +kernel
    · exact gaps _ blank' c member
  | number _ numeral =>
    intro c member
    rcases numeral.chars c member with digit | rfl | rfl
    · simpa using of_decimal (p := fun d => !d.isLower && decide (folded [d] = [d])) (by decide +kernel) digit
    · decide +kernel
    · decide +kernel

/-- Behind what is written anew no word goes on unless one did before. -/
theorem apart (exchange : Exchange old new) {before before' : Bool}
    (free : endsInWord before' new = false) : endsInWord before (folded old) = false := by
  cases exchange with
  | @gap gap filled blank =>
    obtain ⟨c, rest, rfl⟩ := List.exists_cons_of_ne_nil filled
    rw [folded_gap blank]
    show endsInWord (isWord c) rest = false
    rw [isWord_blank (blank c (by simp))]
    exact endsInWord_blanks fun d member => blank d (by simp [member])
  | comma junk blank =>
    rw [folded_append, folded_cons, folded_gap blank, endsInWord_append]
    exact endsInWord_blanks blank
  | opening blank =>
    rw [folded_cons, folded_gap blank]
    exact endsInWord_blanks blank
  | closing junk =>
    rw [folded_append, endsInWord_append]
    rfl
  | number _ numeral =>
    obtain ⟨front, digit, rfl, isDigit⟩ := numeral.last
    rw [endsInWord_concat] at free
    rw [of_decimal (p := isWord) (by decide) isDigit] at free
    cases free

/-- A parenthesis opens behind what is written anew only if one did before. -/
theorem opens (exchange : Exchange old new) {rest rest' : List Char}
    (later : opensWith [] rest' = true → opensWith [] rest = true)
    (found : opensWith [] (new ++ rest') = true) : opensWith [] (folded old ++ rest) = true := by
  cases exchange with
  | gap _ blank =>
    rw [folded_gap blank, opensWith_blanks blank]
    exact later found
  | comma => cases found
  | opening blank =>
    rw [folded_cons]
    rfl
  | closing => cases found
  | number _ numeral =>
    obtain ⟨front, digit, eq, _⟩ := numeral.last
    obtain ⟨c, after, rfl⟩ : ∃ c after, new = c :: after := by
      cases front with
      | nil => exact ⟨_, _, eq⟩
      | cons c front => exact ⟨_, _, eq⟩
    have all : isBlank c = false ∧ c ≠ '(' := by
      rcases numeral.chars c (by simp) with isDigit | rfl | rfl
      · simpa using of_decimal (p := fun d => !isBlank d && decide (d ≠ '(')) (by decide) isDigit
      · decide
      · decide
    obtain ⟨solid, closed⟩ := all
    rw [List.cons_append, opensWith_nil_cons, solid] at found
    exact absurd (of_decide_eq_true found) closed

theorem comma_mem (exchange : Exchange old new) (found : ',' ∈ new) : ',' ∈ old := by
  cases exchange with
  | gap => exact absurd found (by decide)
  | comma => simp
  | opening _ blank' =>
    rcases List.mem_cons.mp found with eq | member
    · exact absurd eq (by decide)
    · exact absurd (blank' _ member) (by decide)
  | closing => exact absurd found (by decide)
  | number _ numeral => exact absurd (numeral.chars ',' found) (by decide)

/-- What is written anew begins no word. -/
theorem follows (exchange : Exchange old new) {rest rest' : List Char} (later : Follows rest rest') :
    Follows (folded old ++ rest) (new ++ rest') := by
  obtain ⟨c, after, eq⟩ := List.exists_cons_of_ne_nil exchange.filled
  have bare := (exchange.plain c (by simp [eq])).1
  have other : ∀ l : Char, l.isLower = true → (l == c) = false := by
    intro l letter
    simp only [beq_eq_false_iff_ne, ne_eq]
    rintro rfl
    rw [bare] at letter
    cases letter
  constructor
  · intro word name found
    cases word with
    | nil => exact exchange.opens (later.opens [] rfl) found
    | cons l word =>
      simp only [isName, List.all_cons, Bool.and_eq_true] at name
      rw [eq, List.cons_append, opensWith_cons, other l name.1] at found
      cases found
  · intro word name found
    cases word with
    | nil => rfl
    | cons l word =>
      simp only [isName, List.all_cons, Bool.and_eq_true] at name
      rw [eq, List.cons_append, List.isPrefixOf, other l name.1] at found
      cases found

theorem holds (exchange : Exchange old new) {rest rest' : List Char} (later : Holds rest rest') :
    Holds (folded old ++ rest) (new ++ rest') := by
  have bare : ∀ c ∈ new, c.isLower = false := fun c member => (exchange.plain c member).1
  constructor
  · intro word name filled whole before before' _ found
    obtain ⟨l, word, rfl⟩ := List.exists_cons_of_ne_nil filled
    have letter : l.isLower = true := by
      simp only [isName, List.all_cons, Bool.and_eq_true] at name
      exact name.1
    have beyond := opensSomewhere_of_append letter bare found
    exact opensSomewhere_append _ (later.opens _ name filled whole _ _ exchange.apart beyond)
  · intro word name filled found
    obtain ⟨l, word, rfl⟩ := List.exists_cons_of_ne_nil filled
    have letter : l.isLower = true := by
      simp only [isName, List.all_cons, Bool.and_eq_true] at name
      exact name.1
    exact occursIn_append _ (later.occurs _ name filled (occursIn_of_append letter bare found))

end Exchange

/-- A text that is another one with some of it written differently. -/
inductive Tidied : List Char → List Char → Prop
  | nil : Tidied [] []
  | same {a a' old new : List Char} (alike : folded a = folded a') (comma : ',' ∈ a' → ',' ∈ a)
      (later : Tidied old new) : Tidied (a ++ old) (a' ++ new)
  | exchange {a a' old new : List Char} (change : Exchange a a') (later : Tidied old new) :
      Tidied (a ++ old) (a' ++ new)
  | trans {old mid new : List Char} (first : Tidied old mid) (second : Tidied mid new) : Tidied old new

namespace Tidied

variable {old new : List Char}

/-- What stands in front of both texts. -/
theorem keep (front : List Char) (tidied : Tidied old new) : Tidied (front ++ old) (front ++ new) :=
  .same rfl (fun member => member) tidied

theorem refl (cs : List Char) : Tidied cs cs := by simpa using keep cs .nil

/-- Texts that are tidied part by part are tidied. -/
theorem append {old' new' : List Char} (first : Tidied old new) (second : Tidied old' new') :
    Tidied (old ++ old') (new ++ new') := by
  induction first generalizing old' new' with
  | nil => exact second
  | same alike comma _ ih =>
    rw [List.append_assoc, List.append_assoc]
    exact .same alike comma (ih second)
  | exchange change _ ih =>
    rw [List.append_assoc, List.append_assoc]
    exact .exchange change (ih second)
  | trans _ _ ih ih' => exact .trans (ih second) (ih' (refl new'))

theorem follows (tidied : Tidied old new) : Follows (folded old) (folded new) := by
  induction tidied with
  | nil => exact .refl _
  | same alike _ _ ih =>
    rw [folded_append, folded_append, alike]
    exact ih.append _
  | exchange change _ ih =>
    rw [folded_append, folded_append, folded_eq_self fun c member => (change.plain c member).2]
    exact change.follows ih
  | trans _ _ ih ih' => exact ih.trans ih'

theorem holds (tidied : Tidied old new) : Holds (folded old) (folded new) := by
  induction tidied with
  | nil => exact .refl _
  | same alike _ later ih =>
    rw [folded_append, folded_append, alike]
    exact .append _ later.follows ih
  | exchange change _ ih =>
    rw [folded_append, folded_append, folded_eq_self fun c member => (change.plain c member).2]
    exact change.holds ih
  | trans _ _ ih ih' => exact ih.trans ih'

theorem comma_mem (tidied : Tidied old new) (found : ',' ∈ new) : ',' ∈ old := by
  induction tidied with
  | nil => exact found
  | same _ comma _ ih => exact List.mem_append.mpr ((List.mem_append.mp found).imp comma ih)
  | exchange change _ ih =>
    exact List.mem_append.mpr ((List.mem_append.mp found).imp change.comma_mem ih)
  | trans _ _ ih ih' => exact ih (ih' found)

/-- A tidied text is complex only if the text was. -/
theorem isComplex (tidied : Tidied old new) (complex : isComplex new = true) :
    Style.isComplex old = true := by
  have holds := tidied.holds
  rw [isComplex_iff] at complex ⊢
  have names : ∀ name ∈ opaqueFunctions, isName name.toList = true ∧ name.toList ≠ [] := by decide
  rcases complex with ⟨name, member, found⟩ | found | ⟨comma, found⟩
  · obtain ⟨isName, filled⟩ := names name member
    exact .inl ⟨name, member, holds.opens _ isName filled true false false (fun eq => eq) found⟩
  · exact .inr (.inl (holds.opens _ (by decide) (by decide) false false false (fun eq => eq) found))
  · exact .inr (.inr ⟨tidied.comma_mem comma, holds.occurs _ (by decide) (by decide) found⟩)

end Tidied

end Retouch.Style
