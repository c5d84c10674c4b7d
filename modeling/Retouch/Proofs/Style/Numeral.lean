import Mathlib.Data.List.TakeDrop
import Retouch.Proofs.Json.Integer
import Retouch.Proofs.Style.Tidied
import Retouch.Style.Build

/-!
# Numbers read back

The fixed form of a finite double is a sign, digits and a fraction. Such a text is read to its end, and no
unit that may follow it is taken for a part of the number.

## Main statements

* `binary_fixedChars`: what the figures of a rounded double write.
* `fixedText_figures`: the fixed form of a finite double is figures, whenever there is one.
* `takeNumber_figures`: figures are read to their end, whatever unit follows.
* `fixedText_cases`: the fixed form is refused just for a number of places beyond the limit.
-/
namespace Retouch.Style

open Retouch.Text Retouch.Number

/-! ### Figures -/

/-- A decimal number without an exponent. -/
structure Figures where
  negative : Bool
  whole : List Char
  fraction : List Char
  filled : whole ≠ []
  digits : ∀ c ∈ whole ++ fraction, c.isDigit = true

namespace Figures

/-- Zero, without a sign. -/
def zero : Figures := ⟨false, ['0'], [], by simp, by simp⟩

/-- The fraction with its point, nothing where there is none. -/
def pointed (fraction : List Char) : List Char := if fraction = [] then [] else '.' :: fraction

def unsigned (figures : Figures) : List Char := figures.whole ++ pointed figures.fraction

def chars (figures : Figures) : List Char :=
  (if figures.negative then ['-'] else []) ++ figures.unsigned

/-- The double that the figures stand for. -/
def value (figures : Figures) : Float :=
  let digits := figures.whole ++ figures.fraction
  let size := ofDecimal (digitsValue digits) digits.length (0 - figures.fraction.length)
  if figures.negative then -size else size

theorem numeral (figures : Figures) : Numeral figures.chars := by
  have digit : ∀ c ∈ figures.whole ++ figures.fraction, c.isDigit = true := figures.digits
  constructor
  · intro c member
    simp only [chars, unsigned, pointed, List.mem_append] at member
    rcases member with sign | whole | fraction
    · split at sign
      · exact .inr (.inl (by simpa using sign))
      · cases sign
    · exact .inl (digit c (by simp [whole]))
    · split at fraction
      · cases fraction
      · rcases List.mem_cons.mp fraction with rfl | member
        · exact .inr (.inr rfl)
        · exact .inl (digit c (by simp [member]))
  · by_cases empty : figures.fraction = []
    · obtain ⟨front, last, eq⟩ := List.eq_nil_or_concat figures.whole |>.resolve_left figures.filled
      refine ⟨(if figures.negative then ['-'] else []) ++ front, last, ?_, digit last (by simp [eq])⟩
      simp [chars, unsigned, pointed, empty, eq]
    · obtain ⟨front, last, eq⟩ := List.eq_nil_or_concat figures.fraction |>.resolve_left empty
      refine ⟨(if figures.negative then ['-'] else []) ++ figures.whole ++ '.' :: front, last, ?_,
        digit last (by simp [eq])⟩
      simp [chars, unsigned, pointed, eq]

end Figures

/-! ### Reading figures -/

/-- What may stand behind a number without becoming a part of it. -/
structure EndsNumber (tail : List Char) : Prop where
  noDigit : ∀ c ∈ tail.head?, isDigit c = false
  noPoint : ∀ c ∈ tail.head?, c ≠ '.'
  noExponent : takeExponent tail = (0, tail)

theorem EndsNumber.nil : EndsNumber [] := ⟨by simp, by simp, rfl⟩

theorem EndsNumber.unit (u : LengthUnit) : EndsNumber u.name.toList := by
  have head : u.name.toList.head?.all (fun c => !isDigit c && decide (c ≠ '.')) = true := by
    cases u <;> decide
  have first : ∀ c ∈ u.name.toList.head?, isDigit c = false ∧ c ≠ '.' := fun c found => by
    simpa using (Option.all_eq_true _ _).mp head c found
  exact ⟨fun c found => (first c found).1, fun c found => (first c found).2, by cases u <;> decide⟩

theorem span_digits {digits tail : List Char} (all : ∀ c ∈ digits, c.isDigit = true)
    (stop : ∀ c ∈ tail.head?, isDigit c = false) : (digits ++ tail).span isDigit = (digits, tail) := by
  have some_ : ∀ c ∈ digits, isDigit c = true := fun c member => isDigit_of_ascii c (all c member)
  have none : tail.takeWhile isDigit = [] ∧ tail.dropWhile isDigit = tail := by
    cases tail with
    | nil => exact ⟨rfl, rfl⟩
    | cons c rest =>
      have not := stop c (by simp)
      exact ⟨List.takeWhile_cons_of_neg (by simp [not]), List.dropWhile_cons_of_neg (by simp [not])⟩
  rw [List.span_eq_takeWhile_dropWhile, List.takeWhile_append_of_pos some_,
    List.dropWhile_append_of_pos some_, none.1, none.2, List.append_nil]

theorem takeSign_figures (figures : Figures) (tail : List Char) :
    takeSign (figures.chars ++ tail) = (figures.negative, figures.unsigned ++ tail) := by
  unfold Figures.chars
  cases figures.negative with
  | true => rfl
  | false =>
    obtain ⟨c, rest, eq⟩ := List.exists_cons_of_ne_nil figures.filled
    have digit := figures.digits c (by simp [eq])
    have minus : c ≠ '-' := by rintro rfl; revert digit; decide
    have plus : c ≠ '+' := by rintro rfl; revert digit; decide
    simp only [Figures.unsigned, eq, Bool.false_eq_true, if_false, List.nil_append, List.cons_append]
    unfold takeSign
    split
    next found => exact absurd (List.cons.inj found).1 minus
    next found => exact absurd (List.cons.inj found).1 plus
    next => rfl

theorem takeFraction_pointed {whole fraction tail : List Char} (filled : whole ≠ [])
    (digits : ∀ c ∈ fraction, c.isDigit = true) (ends : EndsNumber tail) :
    takeFraction whole (Figures.pointed fraction ++ tail) = (fraction, tail) := by
  unfold Figures.pointed
  split
  next empty =>
    subst empty
    cases tail with
    | nil => rfl
    | cons c rest =>
      have noPoint := ends.noPoint c (by simp)
      unfold takeFraction
      split
      next found => exact absurd (List.cons.inj found).1 noPoint
      next => rfl
  next =>
    rw [List.cons_append]
    simp only [takeFraction]
    rw [span_digits digits ends.noDigit]
    simp [filled]

/-- Figures are read to their end, whatever unit follows. -/
theorem takeNumber_figures (figures : Figures) {tail : List Char} (ends : EndsNumber tail) :
    takeNumber (figures.chars ++ tail) = some (figures.value, tail) := by
  have whole : ∀ c ∈ figures.whole, c.isDigit = true := fun c member =>
    figures.digits c (by simp [member])
  have fraction : ∀ c ∈ figures.fraction, c.isDigit = true := fun c member =>
    figures.digits c (by simp [member])
  have stop : ∀ c ∈ (Figures.pointed figures.fraction ++ tail).head?, isDigit c = false := by
    unfold Figures.pointed
    split
    · exact ends.noDigit
    · intro c found
      cases found
      decide
  have body : (figures.unsigned ++ tail).span isDigit =
      (figures.whole, Figures.pointed figures.fraction ++ tail) := by
    rw [Figures.unsigned, List.append_assoc]
    exact span_digits whole stop
  simp only [takeNumber, takeSign_figures, body, takeFraction_pointed figures.filled fraction ends,
    ends.noExponent]
  simp [Figures.value, figures.filled]

/-! ### Writing figures -/

theorem isDigit_digitChars (n : Nat) : ∀ c ∈ digitChars n, c.isDigit = true := fun _ member =>
  Nat.isDigit_of_mem_toDigits (by decide) (by decide) member

theorem isDigit_padLeft {cs : List Char} (digits : ∀ c ∈ cs, c.isDigit = true) (width : Nat) :
    ∀ c ∈ padLeft width cs, c.isDigit = true := by
  intro c member
  rcases List.mem_append.mp member with zero | member
  · rw [List.eq_of_mem_replicate zero]
    decide
  · exact digits c member

/-- Digits count as they do in the standard library. -/
theorem digitsValue_eq {cs : List Char} (digits : ∀ c ∈ cs, c.isDigit = true) :
    digitsValue cs = Nat.ofDigitChars 10 cs 0 := by
  -- From any number on, as the digits that were counted before are carried along.
  have each : ∀ (cs : List Char) (n : Nat), (∀ c ∈ cs, c.isDigit = true) →
      cs.foldl (fun n c => 10 * n + (digitValue? c).getD 0) n = Nat.ofDigitChars 10 cs n := by
    intro cs
    induction cs with
    | nil => exact fun n _ => rfl
    | cons c rest ih =>
      intro n digits
      have value : digitValue? c = some (c.toNat - 48) := by
        simpa using of_decimal (p := fun d => decide (digitValue? d = some (d.toNat - 48))) (by decide)
          (digits c (by simp))
      rw [List.foldl_cons, Nat.ofDigitChars_cons, ih _ fun d member => digits d (by simp [member]), value]
      rfl
  exact each cs 0 digits

/-- The figures write `units / 10 ^ places`, but for the sign. -/
def Figures.Writes (figures : Figures) (places units : Nat) : Prop :=
  ∃ k, figures.fraction.length + k = places ∧ digitsValue (figures.whole ++ figures.fraction) * Nat.pow 10 k = units

/-- No zero of the figures could be left out. -/
structure Figures.Spare (figures : Figures) : Prop where
  whole : figures.whole = ['0'] ∨ figures.whole.head? ≠ some '0'
  fraction : figures.fraction.getLast? ≠ some '0'

theorem Figures.spare_zero : Figures.zero.Spare := ⟨.inl rfl, by decide⟩

/-- The digits of a number begin with a zero only for zero. -/
theorem head_digitChars (n : Nat) : digitChars n = ['0'] ∨ (digitChars n).head? ≠ some '0' := by
  rcases Nat.eq_zero_or_pos n with rfl | positive
  · exact .inl rfl
  · right
    intro first
    obtain ⟨more, digits⟩ := List.head?_eq_some_iff.mp first
    exact Json.head_toDigits positive more digits

/-- A fraction keeps its digits up to the last one that is no zero. -/
theorem stripFraction_eq (whole : List Char) {fraction : List Char}
    (digits : ∀ c ∈ fraction, c.isDigit = true) :
    ∃ kept k, fraction = kept ++ List.replicate k '0' ∧ kept.getLast? ≠ some '0' ∧
      stripFraction (whole ++ '.' :: fraction) = whole ++ Figures.pointed kept := by
  obtain ⟨kept, kept_eq⟩ : ∃ kept, kept = (fraction.reverse.dropWhile (· = '0')).reverse := ⟨_, rfl⟩
  refine ⟨kept, (fraction.reverse.takeWhile (· = '0')).length, ?_, ?_, ?_⟩
  · have zeros : fraction.reverse.takeWhile (· = '0') =
        List.replicate (fraction.reverse.takeWhile (· = '0')).length '0' := by
      refine List.eq_replicate_iff.mpr ⟨rfl, fun c member => ?_⟩
      simpa using List.all_eq_true.mp List.all_takeWhile c member
    have split := congrArg List.reverse (List.takeWhile_append_dropWhile (p := (· = '0')) (l := fraction.reverse))
    rw [List.reverse_append, List.reverse_reverse, ← kept_eq, zeros, List.reverse_replicate] at split
    exact split.symm
  · intro last
    rw [kept_eq, List.getLast?_reverse] at last
    have first := List.head?_dropWhile_not (· = '0') fraction.reverse
    rw [last] at first
    simp at first
  · have reversed : (whole ++ '.' :: fraction).reverse = fraction.reverse ++ '.' :: whole.reverse := by simp
    unfold stripFraction
    rw [reversed, List.dropWhile_append, kept_eq]
    cases kept : fraction.reverse.dropWhile (· = '0') with
    | nil => simp [Figures.pointed]
    | cons c rest =>
      have member : c ∈ fraction.reverse :=
        List.dropWhile_sublist _ |>.subset (by rw [kept]; simp)
      have digit := digits c (by simpa using member)
      have noPoint : c ≠ '.' := by rintro rfl; revert digit; decide
      simp only [List.isEmpty_cons, Bool.false_eq_true, if_false, List.cons_append]
      split
      next found => exact absurd (List.cons.inj found).1 noPoint
      next =>
        rw [Figures.pointed, if_neg (by simp)]
        simp

theorem length_padLeft {cs : List Char} {width : Nat} (short : cs.length ≤ width) :
    (padLeft width cs).length = width := by
  unfold padLeft
  rw [List.length_append, List.length_replicate]
  omega

theorem ofDigitChars_padLeft (width n : Nat) : Nat.ofDigitChars 10 (padLeft width (digitChars n)) 0 = n := by
  rw [padLeft, Nat.ofDigitChars_append, Nat.ofDigitChars_replicate_zero, Nat.mul_zero]
  exact Nat.ofDigitChars_ten_toDigits

theorem fixedChars_eq (places units : Nat) (negative : Bool) :
    ∃ figures : Figures, figures.negative = negative ∧ figures.Writes places units ∧ figures.Spare ∧
      Number.fixedChars places units = figures.unsigned := by
  unfold Number.fixedChars
  have whole := isDigit_digitChars (units / Nat.pow 10 places)
  have filled : digitChars (units / Nat.pow 10 places) ≠ [] := Nat.toDigits_ne_nil
  split
  next none =>
    subst none
    have digits : ∀ c ∈ digitChars (units / Nat.pow 10 0) ++ [], c.isDigit = true := by simpa using whole
    refine ⟨⟨negative, _, [], filled, digits⟩, rfl, ⟨0, rfl, ?_⟩, ⟨head_digitChars _, by simp⟩,
      by simp [Figures.unsigned, Figures.pointed]⟩
    rw [digitsValue_eq digits, List.append_nil, digitChars, Nat.ofDigitChars_ten_toDigits]
    simp
  next some_ =>
    have rest := isDigit_padLeft (isDigit_digitChars (units % Nat.pow 10 places)) places
    obtain ⟨kept, k, eq, last, stripped⟩ := stripFraction_eq (digitChars (units / Nat.pow 10 places)) rest
    have digits : ∀ c ∈ digitChars (units / Nat.pow 10 places) ++ kept, c.isDigit = true := by
      intro c member
      rcases List.mem_append.mp member with member | member
      · exact whole c member
      · exact rest c (eq ▸ List.mem_append_left _ member)
    have less : units % Nat.pow 10 places < 10 ^ places := Nat.mod_lt _ (Nat.pow_pos (by decide))
    have short : (digitChars (units % Nat.pow 10 places)).length ≤ places :=
      (Nat.length_toDigits_le_iff (by decide) (Nat.pos_of_ne_zero some_)).mpr less
    -- The remainder fills all places, so what is kept of it and the zeros that are cut off are as many.
    have length := length_padLeft short
    have value := ofDigitChars_padLeft places (units % Nat.pow 10 places)
    rw [eq] at length value
    rw [List.length_append, List.length_replicate] at length
    rw [Nat.ofDigitChars_append, Nat.ofDigitChars_replicate_zero] at value
    refine ⟨⟨negative, _, kept, filled, digits⟩, rfl, ⟨k, length, ?_⟩, ⟨head_digitChars _, last⟩, stripped⟩
    rw [digitsValue_eq digits, Nat.ofDigitChars_append, digitChars, Nat.ofDigitChars_ten_toDigits,
      Nat.ofDigitChars_eq_ofDigitChars_zero, Nat.pow_eq (n := k), Nat.add_mul, Nat.mul_comm _ (10 ^ k),
      Nat.mul_comm _ (10 ^ k), value, ← Nat.mul_assoc, ← Nat.pow_add, Nat.add_comm k, length]
    exact Nat.div_add_mod units (10 ^ places)

/-- The fixed form of a finite double is figures, which write what it is rounded to. -/
theorem binary_fixedChars (b : Binary) (places : Nat) :
    ∃ figures : Figures, b.fixedChars places = figures.chars ∧
      figures.Writes places (roundQuotient (b.scaled places).1 (b.scaled places).2) ∧ figures.Spare ∧
      figures.negative = (b.negative && decide (roundQuotient (b.scaled places).1 (b.scaled places).2 ≠ 0)) := by
  unfold Binary.fixedChars
  simp only
  split
  next none =>
    refine ⟨.zero, rfl, ⟨places, by simp [Figures.zero], ?_⟩, Figures.spare_zero, by simp [Figures.zero, none]⟩
    have zero : digitsValue (Figures.zero.whole ++ Figures.zero.fraction) = 0 := by decide
    rw [zero, none, Nat.zero_mul]
  next some_ =>
    obtain ⟨figures, sign, writes, spare, eq⟩ :=
      fixedChars_eq places (roundQuotient (b.scaled places).1 (b.scaled places).2) b.negative
    refine ⟨figures, ?_, writes, spare, by simp [sign, some_]⟩
    rw [Figures.chars, sign, eq]
    split <;> rfl

theorem fixedText_figures {x : Float} {b : Binary} (finite : reading x = .finite b) {places : Nat}
    {text : String} (written : fixedText x places = .ok text) :
    ∃ figures : Figures, text.toList = figures.chars := by
  unfold fixedText at written
  rw [finite] at written
  simp only at written
  split at written
  · split at written
    · cases written
      exact ⟨.zero, rfl⟩
    · cases written
  · cases written
    obtain ⟨figures, eq, -⟩ := binary_fixedChars b (min places fullPlaces)
    exact ⟨figures, by rw [String.toList_ofList, eq]⟩

/-- A finite double that is not zero. -/
def IsNonzero (x : Float) : Prop := ∃ b, reading x = .finite b ∧ b.mantissa ≠ 0

theorem fixedText_cases {x : Float} {b : Binary} (finite : reading x = .finite b) (places : Nat) :
    (∃ text, fixedText x places = .ok text) ∧ ¬(placesLimit < places ∧ IsNonzero x) ∨
      fixedText x places = .error (.ofPlaces places) ∧ placesLimit < places ∧ IsNonzero x := by
  unfold fixedText
  rw [finite]
  simp only
  have zero : IsNonzero x ↔ b.mantissa ≠ 0 := by
    constructor
    · rintro ⟨other, eq, nonzero⟩
      rw [finite] at eq
      cases eq
      exact nonzero
    · exact fun nonzero => ⟨b, finite, nonzero⟩
  rw [zero]
  split
  next beyond =>
    split
    next none => exact .inl ⟨⟨"0", rfl⟩, fun both => both.2 none⟩
    next some_ => exact .inr ⟨rfl, beyond, some_⟩
  next within => exact .inl ⟨⟨_, rfl⟩, fun both => within both.1⟩

end Retouch.Style
