import Retouch.Proofs.Number.Arithmetic
import Retouch.Proofs.Style.Numeral

/-!
# Numbers to some decimals

A double that is written to some decimals is rounded twice on its way: to a decimal, and to the double that is
nearest to this decimal. The second rounding moves the decimal no farther than to the double that it came from, so
that together they move the double by one unit of the last decimal at most. Integers come back as they were.

The text of a finite double has one form: no zero that could be left out on either side, and no sign of zero. It says
which multiple of the last decimal's unit is nearest to the double, the even one of two. To this multiple the double
that it came from is not nearer than the nearest double, so any nearest double is rounded to the same multiple again,
and written alike: to round a number to a double before it is written makes no difference.

## Main statements

* `RoundsTo.unique`: there is one integer to round to.
* `written_back`: what the double is that the figures of a double are read as.
* `RoundsTo.of_nearest`: a double nearest to what a double is rounded to is rounded to the same.
* `fixedText_rounds`: the text of a finite double, for any number of decimals.
-/
namespace Retouch.Style

open Retouch.Text Retouch.Number

variable {x : Float} {r : ℝ} {places : Nat}

/-- The number that the figures write. -/
noncomputable def Figures.exact (figures : Figures) : ℝ :=
  (if figures.negative then -1 else 1) *
    (digitsValue (figures.whole ++ figures.fraction) / 10 ^ figures.fraction.length)

/-- Figures with few decimals are rounded once. -/
theorem Figures.computes (figures : Figures) (few : figures.fraction.length ≤ 22) :
    Computes figures.value figures.exact := by
  have size := computes_ofDecimal (digitsValue (figures.whole ++ figures.fraction))
    (figures.whole ++ figures.fraction).length few
  unfold Figures.value Figures.exact
  cases figures.negative with
  | false => simpa using size
  | true => simpa using size.neg

/-! ### Rounding to an integer -/

/-- The integer is nearest to the number, and the even one if two are. -/
structure RoundsTo (v : ℝ) (n : Int) : Prop where
  near : |(n : ℝ) - v| ≤ 1 / 2
  even : |(n : ℝ) - v| = 1 / 2 → Even n

namespace RoundsTo

variable {v w : ℝ} {m n : Int}

theorem of_int (n : Int) : RoundsTo n n := ⟨by simp, by simp⟩

/-- Two integers that are nearest are a unit apart at most, and then one of them is odd. -/
theorem unique (first : RoundsTo v m) (second : RoundsTo v n) : m = n := by
  have apart : |((m - n : Int) : ℝ)| ≤ 1 := by
    have sum := abs_sub_le (m : ℝ) v n
    rw [abs_sub_comm v] at sum
    push_cast
    linarith [first.near, second.near]
  have apart : |m - n| ≤ 1 := by exact_mod_cast apart
  by_contra other
  have one : |m - n| = 1 := by
    have : 0 < |m - n| := abs_pos.mpr (sub_ne_zero.mpr other)
    omega
  -- Both of them are then off by a half.
  have sum := abs_sub_le (m : ℝ) v n
  rw [abs_sub_comm v] at sum
  have one' : |(m : ℝ) - n| = 1 := by exact_mod_cast one
  have even := first.even (by linarith [first.near, second.near])
  have even' := second.even (by linarith [first.near, second.near])
  have odd : Odd (m - n) := by
    rcases abs_eq (by norm_num : (0 : Int) ≤ 1) |>.mp one with eq | eq <;> rw [eq] <;> decide
  exact (Int.not_even_iff_odd.mpr odd) (even.sub even')

theorem neg (rounds : RoundsTo v n) : RoundsTo (-v) (-n) := by
  have same : |((-n : Int) : ℝ) - -v| = |(n : ℝ) - v| := by
    rw [← abs_neg]
    congr 1
    push_cast
    ring
  constructor
  · rw [same]
    exact rounds.near
  · intro half
    rw [same] at half
    exact (rounds.even half).neg

/-- What is not farther off than a number that is rounded to an integer is rounded to it too. -/
theorem of_closer (rounds : RoundsTo v n) (closer : |(n : ℝ) - w| ≤ |(n : ℝ) - v|) : RoundsTo w n where
  near := closer.trans rounds.near
  even half := rounds.even (le_antisymm rounds.near (half ▸ closer))

end RoundsTo

theorem roundQuotient_near (num : Nat) {den : Nat} (positive : 0 < den) :
    |(roundQuotient num den : ℝ) - num / den| ≤ 1 / 2 := by
  obtain ⟨above, below⟩ := roundQuotient_within num den positive
  have above : (2 * num : ℝ) ≤ (2 * roundQuotient num den + 1) * den := by exact_mod_cast above
  have below : (2 * roundQuotient num den * den : ℝ) ≤ 2 * num + den := by exact_mod_cast below
  have positive : (0 : ℝ) < den := by exact_mod_cast positive
  have split : (num : ℝ) = num / den * den := (div_mul_cancel₀ _ positive.ne').symm
  rw [split] at above below
  have most : num / den ≤ (roundQuotient num den : ℝ) + 1 / 2 := by
    refine le_of_mul_le_mul_right ?_ positive
    linarith
  have least : (roundQuotient num den : ℝ) ≤ num / den + 1 / 2 := by
    refine le_of_mul_le_mul_right ?_ positive
    linarith
  exact abs_le.mpr ⟨by linarith, by linarith⟩

/-- A quotient is rounded to an integer. -/
theorem roundsTo_roundQuotient (num : Nat) {den : Nat} (positive : 0 < den) :
    RoundsTo ((num : ℝ) / den) (roundQuotient num den : Nat) where
  near := by
    rw [Int.cast_natCast]
    exact roundQuotient_near num positive
  even half := by
    rw [Int.cast_natCast] at half
    have positive' : (0 : ℝ) < den := by exact_mod_cast positive
    have split : (num : ℝ) / den = (num / den : Nat) + (num % den : Nat) / den := by
      have whole : (num : ℝ) = den * (num / den : Nat) + (num % den : Nat) := by
        exact_mod_cast (Nat.div_add_mod num den).symm
      rw [eq_comm, ← sub_eq_zero]
      field_simp
      linarith
    have sides : roundQuotient num den = num / den ∨ roundQuotient num den = num / den + 1 := by
      unfold roundQuotient
      dsimp only
      split
      · exact .inl rfl
      · split
        · exact .inr rfl
        · split
          · exact .inl rfl
          · exact .inr rfl
    -- In either case the remainder is half of the divisor.
    have middle : ((num % den : Nat) : ℝ) / den = 1 / 2 := by
      have less : ((num % den : Nat) : ℝ) / den < 1 := by
        rw [div_lt_one positive']
        exact_mod_cast Nat.mod_lt num positive
      have least : (0 : ℝ) ≤ (num % den : Nat) / den := by positivity
      rcases sides with low | high
      · rw [low, split, sub_add_cancel_left, abs_neg, abs_of_nonneg least] at half
        exact half
      · rw [high, split, Nat.cast_add, Nat.cast_one, add_sub_add_left_eq_sub, abs_of_pos (by linarith)] at half
        linarith
    have tie : 2 * (num % den) = den := by
      rw [div_eq_div_iff positive'.ne' two_ne_zero, one_mul] at middle
      have : (num % den) * 2 = den := by exact_mod_cast middle
      omega
    have parity := roundQuotient_tie num den tie
    rw [Int.even_coe_nat]
    exact Nat.even_iff.mpr parity

/-! ### Rounding to decimals -/

theorem scaled_quotient (b : Binary) (places : Nat) : 0 < (b.scaled places).2 ∧
    ((b.scaled places).1 : ℝ) / (b.scaled places).2 = b.mantissa * 2 ^ b.exponent * 10 ^ places := by
  obtain ⟨negative, m, e⟩ := b
  unfold Binary.scaled
  cases e with
  | ofNat up => simp
  | negSucc down =>
    refine ⟨Nat.two_pow_pos _, ?_⟩
    simp only [Nat.pow_eq, zpow_negSucc]
    push_cast
    field_simp

/-- What a double is rounded to, in units of the last decimal. -/
def units (b : Binary) (places : Nat) : Int :=
  (if b.negative then -1 else 1) * (roundQuotient (b.scaled places).1 (b.scaled places).2 : Nat)

/-- A double is rounded to its units. -/
theorem roundsTo_units (b : Binary) (places : Nat) : RoundsTo (b.value * 10 ^ places) (units b places) := by
  obtain ⟨positive, exact_⟩ := scaled_quotient b places
  have size := roundsTo_roundQuotient (b.scaled places).1 positive
  rw [exact_] at size
  unfold units Binary.value
  cases b.negative with
  | false => simpa using size
  | true => simpa using size.neg

/-- How far a decimal is off, in units of the last one. -/
theorem scaled_distance (v : ℝ) (n : Int) (places : Nat) :
    |(n : ℝ) - v * 10 ^ places| = |v - n / 10 ^ places| * 10 ^ places := by
  have unit : (0 : ℝ) < 10 ^ places := by positivity
  rw [abs_sub_comm]
  nth_rewrite 3 [← abs_of_pos unit]
  rw [← abs_mul, sub_mul, div_mul_cancel₀ _ unit.ne']

/-- The double nearest to what a double is rounded to is off by one unit of the last decimal at most: half of it for each
rounding. -/
theorem RoundsTo.moved {n : Int} {t : ℝ} (rounds : RoundsTo (r * 10 ^ places) n) (double : IsDouble r)
    (nearest : Nearest t (n / 10 ^ places)) : |t - r| ≤ 1 / 10 ^ places := by
  have unit : (0 : ℝ) < 10 ^ places := by positivity
  have close : |r - n / 10 ^ places| ≤ 1 / 2 / 10 ^ places := by
    rw [le_div_iff₀ unit, ← scaled_distance]
    exact rounds.near
  have least := nearest.least r double
  have sum := abs_sub_le t (n / 10 ^ places) r
  rw [abs_sub_comm (n / 10 ^ places : ℝ)] at sum
  have halves : 1 / 2 / 10 ^ places + 1 / 2 / 10 ^ places = (1 / 10 ^ places : ℝ) := by ring
  linarith

/-- The figures of a finite double write what it is rounded to, with no zero and no sign to spare. -/
theorem fixedChars_units (b : Binary) (places : Nat) : ∃ figures : Figures,
    b.fixedChars places = figures.chars ∧ figures.Spare ∧ (figures.negative = true → figures.exact ≠ 0) ∧
      figures.fraction.length ≤ places ∧ figures.exact = units b places / 10 ^ places := by
  obtain ⟨figures, eq, ⟨k, length, writes⟩, spare, sign⟩ := binary_fixedChars b places
  unfold units
  generalize roundQuotient (b.scaled places).1 (b.scaled places).2 = size at *
  have digits : (digitsValue (figures.whole ++ figures.fraction) : ℝ) / 10 ^ figures.fraction.length =
      size / 10 ^ places := by
    rw [← length, ← writes, pow_add, Nat.pow_eq]
    push_cast
    field_simp
  have exact_ : figures.exact = (((if b.negative then -1 else 1) * (size : Nat) : Int) : ℝ) / 10 ^ places := by
    unfold Figures.exact
    rw [digits, sign]
    by_cases none : size = 0
    · simp [none]
    · rw [decide_eq_true none, Bool.and_true, ← mul_div_assoc]
      push_cast
      rfl
  refine ⟨figures, eq, spare, ?_, by omega, exact_⟩
  intro negative
  rw [sign, Bool.and_eq_true, decide_eq_true_eq] at negative
  rw [exact_, negative.1]
  simp [negative.2]

/-! ### Reading back -/

/-- A double that is written with some decimals and read again moves by one unit of the last decimal at most; an
integer does not move. -/
theorem written_back (denotes : Denotes x r) (some_ : 0 < places) (few : places ≤ 22) :
    ∃ (figures : Figures) (t : ℝ), writeNumber places x = .ok (String.ofList figures.chars) ∧
      Denotes figures.value t ∧ |t - r| ≤ 1 / 10 ^ places ∧ ∀ n : Int, r = n → t = r := by
  obtain ⟨b, read, rfl⟩ := denotes
  obtain ⟨figures, eq, -, -, length, exact_⟩ := fixedChars_units b places
  have rounds := roundsTo_units b places
  generalize units b places = n at exact_ rounds
  have written : writeNumber places x = .ok (String.ofList figures.chars) := by
    have inside : ¬placesLimit < places := by unfold placesLimit; omega
    have within : min places fullPlaces = places := by unfold fullPlaces; omega
    unfold writeNumber fixedText
    rw [read]
    simp only
    rw [if_neg inside, within, eq]
    rfl
  have unit : (0 : ℝ) < 10 ^ places := by positivity
  have double : IsDouble b.value := Denotes.isDouble ⟨b, read, rfl⟩
  have less : (1 / 10 ^ places : ℝ) < 1 := by
    rw [div_lt_one unit]
    exact one_lt_pow₀ (by norm_num) some_.ne'
  have computes := figures.computes (length.trans few)
  rw [exact_] at computes
  obtain ⟨t, back, nearest⟩ := computes.denotes_of_lt fun t nearest => by
    have inside := Denotes.abs_le ⟨b, read, rfl⟩
    have apart := abs_sub_abs_le_abs_sub t b.value
    have := rounds.moved double nearest
    generalize (2 : ℝ) ^ 1024 = limit at *
    linarith
  refine ⟨figures, t, written, back, rounds.moved double nearest, fun k integer => ?_⟩
  have same : n = k * 10 ^ places := by
    have near := rounds.near
    rw [integer] at near
    have less : |((n - k * 10 ^ places : Int) : ℝ)| < 1 := by
      push_cast
      linarith
    exact sub_eq_zero.mp (Int.abs_lt_one_iff.mp (by exact_mod_cast less))
  have exactly : (n / 10 ^ places : ℝ) = b.value := by
    rw [integer, same]
    push_cast
    exact mul_div_cancel_right₀ _ unit.ne'
  rw [exactly] at nearest
  exact nearest.eq_of_isDouble double

/-! ### Doubles that are rounded alike -/

variable {s : ℝ} {n : Int}

/-- The text of a double is told by its units. -/
theorem fixedChars_of_units (b : Binary) (places : Nat) :
    b.fixedChars places = if units b places = 0 then ['0']
      else if units b places < 0 then '-' :: Number.fixedChars places (units b places).natAbs
      else Number.fixedChars places (units b places).natAbs := by
  unfold Binary.fixedChars units
  simp only
  generalize roundQuotient (b.scaled places).1 (b.scaled places).2 = size
  by_cases none : size = 0
  · simp [none]
  · cases b.negative with
    | false => simp [none]
    | true => simp [none, Nat.pos_of_ne_zero none]

/-- Doubles that are rounded to one decimal are written alike. -/
theorem fixedChars_congr {b c : Binary} (left : RoundsTo (b.value * 10 ^ places) n)
    (right : RoundsTo (c.value * 10 ^ places) n) : b.fixedChars places = c.fixedChars places := by
  -- There is one integer to round to.
  have same : units b places = units c places :=
    calc units b places = n := (roundsTo_units b places).unique left
      _ = units c places := right.unique (roundsTo_units c places)
  rw [fixedChars_of_units, fixedChars_of_units, same]

/-- The double nearest to what a double is rounded to is not farther off than this double, so that it is rounded to
the same. -/
theorem RoundsTo.of_nearest (rounds : RoundsTo (r * 10 ^ places) n) (double : IsDouble r)
    (nearest : Nearest s (n / 10 ^ places)) : RoundsTo (s * 10 ^ places) n := by
  have unit : (0 : ℝ) < 10 ^ places := by positivity
  -- The double itself competes with the nearest one.
  apply rounds.of_closer
  rw [scaled_distance, scaled_distance]
  exact mul_le_mul_of_nonneg_right (nearest.least r double) unit.le

/-- A double has no more decimals than the least one, so that nothing is rounded away behind them. -/
theorem units_full {b : Binary} (double : IsDouble b.value) (enough : 1074 ≤ places) :
    b.value * 10 ^ places = units b places := by
  obtain ⟨m, same⟩ := double.onGrid
  have whole : b.value * 10 ^ places = ((m * 2 ^ (places - 1074) * 5 ^ places : Int) : ℝ) := by
    have ten : (10 : ℝ) ^ places = 2 ^ places * 5 ^ places := by
      rw [← mul_pow]
      norm_num
    have least : (2 : ℝ) ^ (-1074 : Int) * 2 ^ places = 2 ^ (places - 1074) := by
      rw [← zpow_natCast, ← zpow_natCast, ← zpow_add₀ (by norm_num)]
      congr 1
      omega
    calc b.value * 10 ^ places = m * (2 ^ (-1074 : Int) * 2 ^ places) * 5 ^ places := by rw [same, ten]; ring
      _ = ((m * 2 ^ (places - 1074) * 5 ^ places : Int) : ℝ) := by rw [least]; push_cast; rfl
  have rounds := roundsTo_units b places
  rw [whole] at rounds ⊢
  exact congrArg Int.cast ((RoundsTo.of_int _).unique rounds)

/-! ### Nearest doubles -/

/-- Every quotient of integers is computed by a double. -/
theorem exists_computes (n : Int) {den : Nat} (positive : 0 < den) : ∃ y, Computes y (n / den) := by
  have size {m : Nat} (some_ : 0 < m) : ∃ y, Computes y (m / den) := by
    have quotient := computes_digits_div .positive .positive 0 0 some_ positive
    rw [positive_beq, value_positive, value_positive, zpow_zero, mul_one, mul_one] at quotient
    exact ⟨_, quotient⟩
  obtain ⟨m, rfl | rfl⟩ := n.eq_nat_or_neg
  all_goals rcases Nat.eq_zero_or_pos m with rfl | some_
  · exact ⟨_, by simpa using denotes_zero.computes⟩
  · simpa using size some_
  · exact ⟨_, by simpa using denotes_zero.computes⟩
  · obtain ⟨y, computes⟩ := size some_
    exact ⟨-y, by simpa [neg_div] using computes.neg⟩

/-- What a double is rounded to is in the range of doubles. -/
theorem RoundsTo.exists_nearest (rounds : RoundsTo (r * 10 ^ places) n) (denotes : Denotes x r) :
    ∃ y s, Denotes y s ∧ Nearest s (n / 10 ^ places) := by
  obtain ⟨y, computes⟩ := exists_computes n (Nat.pow_pos (n := places) (by decide : 0 < 10))
  rw [Nat.cast_pow, Nat.cast_ofNat] at computes
  obtain ⟨s, back, nearest⟩ := computes.denotes_of_lt fun s nearest => by
    -- It is off by one at most, and the largest double is farther from the end of the range.
    have moved := rounds.moved denotes.isDouble nearest
    have unit : (1 : ℝ) / 10 ^ places ≤ 1 := by
      rw [div_le_one (by positivity)]
      exact one_le_pow₀ (by norm_num)
    have apart := abs_sub_abs_le_abs_sub s r
    have top := denotes.abs_le_top
    have room : (1 : ℝ) < 2 ^ 971 := one_lt_pow₀ (by norm_num) (by norm_num)
    generalize (2 : ℝ) ^ 1024 = limit at *
    generalize (2 : ℝ) ^ 971 = gap at *
    linarith
  exact ⟨y, s, back, nearest⟩

/-! ### The text -/

/-- The figures of a number that is rounded to some decimals. -/
structure Figures.Rounds (figures : Figures) (places : Nat) (r : ℝ) : Prop where
  spare : figures.Spare
  few : figures.fraction.length ≤ places
  signed : figures.negative = true → figures.exact ≠ 0
  nearest : ∃ n : Int, figures.exact = n / 10 ^ places ∧ RoundsTo (r * 10 ^ places) n

/-- Some double is nearest to the figures, and every such double is written with them. -/
structure Figures.Kept (figures : Figures) (places : Nat) : Prop where
  reached : ∃ y s, Denotes y s ∧ Nearest s figures.exact
  written : ∀ y s, Denotes y s → Nearest s figures.exact → fixedText y places = .ok (String.ofList figures.chars)

theorem Figures.exact_zero : Figures.zero.exact = 0 := by
  have digits : digitsValue (Figures.zero.whole ++ Figures.zero.fraction) = 0 := by decide
  rw [Figures.exact, digits]
  simp

theorem Figures.rounds_zero (places : Nat) : Figures.zero.Rounds places 0 where
  spare := Figures.spare_zero
  few := Nat.zero_le _
  signed := by simp [Figures.zero]
  nearest := ⟨0, by simp [Figures.exact_zero], by simpa using RoundsTo.of_int 0⟩

/-- Zero is never refused. -/
theorem fixedText_zero (denotes : Denotes x 0) (places : Nat) : fixedText x places = .ok "0" := by
  obtain ⟨b, read, zero⟩ := denotes
  have none : b.mantissa = 0 := by
    have size := abs_value b.negative b.mantissa b.exponent
    rw [zero, abs_zero, eq_comm, mul_eq_zero] at size
    have power : (2 : ℝ) ^ b.exponent ≠ 0 := by positivity
    exact_mod_cast size.resolve_right power
  have chars (places : Nat) : b.fixedChars places = ['0'] := by
    have units : units b places = 0 := by
      have rounds := roundsTo_units b places
      rw [zero, zero_mul] at rounds
      exact rounds.unique (by exact_mod_cast RoundsTo.of_int 0)
    rw [fixedChars_of_units, if_pos units]
  unfold fixedText
  rw [read]
  simp only [none, if_true, chars, ite_self]

/-- Within the limit, a double is written with the decimals that it can have. -/
theorem fixedText_within {b : Binary} (read : reading x = .finite b) (within : places ≤ placesLimit) :
    fixedText x places = .ok (String.ofList (b.fixedChars (min places fullPlaces))) := by
  unfold fixedText
  rw [read]
  simp only
  rw [if_neg (not_lt.mpr within)]

/-- Beyond the limit, all other doubles are refused. -/
theorem fixedText_beyond (denotes : Denotes x r) (some_ : r ≠ 0) (beyond : placesLimit < places) :
    fixedText x places = .error (.ofPlaces places) := by
  obtain ⟨b, read, rfl⟩ := denotes
  have digits : b.mantissa ≠ 0 := by
    intro none
    apply some_
    simp [Binary.value, none]
  unfold fixedText
  rw [read]
  simp only
  rw [if_pos beyond, if_neg digits]

/-- The figures are those of the number rounded to all decimals that were asked for, even where fewer are written. -/
theorem fixedChars_rounds {b : Binary} (double : IsDouble b.value) (places : Nat) : ∃ figures : Figures,
    b.fixedChars (min places fullPlaces) = figures.chars ∧ figures.Rounds places b.value ∧
      figures.exact = units b (min places fullPlaces) / 10 ^ min places fullPlaces := by
  obtain ⟨figures, chars, spare, signed, few, exact_⟩ := fixedChars_units b (min places fullPlaces)
  have nearest : figures.exact = units b places / 10 ^ places := by
    by_cases all : places ≤ fullPlaces
    · rw [min_eq_left all] at exact_
      exact exact_
    · -- All decimals of the double are written, and those that were asked for beyond them are zeros.
      have more : fullPlaces ≤ places := by omega
      have enough : 1074 ≤ fullPlaces := by decide
      have unit (k : Nat) : (10 : ℝ) ^ k ≠ 0 := by positivity
      rw [min_eq_right more, ← units_full double enough, mul_div_cancel_right₀ _ (unit _)] at exact_
      rw [exact_, ← units_full double (enough.trans more), mul_div_cancel_right₀ _ (unit _)]
  exact ⟨figures, chars, ⟨spare, few.trans (min_le_left _ _), signed,
    units b places, nearest, roundsTo_units b places⟩, exact_⟩

end Retouch.Style
