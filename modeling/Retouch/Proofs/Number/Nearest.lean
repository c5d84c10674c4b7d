import Retouch.Proofs.Number.Exact

/-!
# Rounding to doubles

The result of an operation on doubles is a double nearest to the exact result, as long as it is in the range of
doubles. The operations shift digits out to the right and keep of them one bit and whether there was more; that is
enough to tell to which side to round.

## Main statements

* `Nearest.within`: rounding moves a number by half of the distance between the doubles of its size at most.
* `Nearest.half_le`: of a multiple of the smallest double it leaves half at least.
* `nearest_of_digits`: the integer nearest to the digits that are kept makes a nearest double.
* `reading_rounded`: so the float that is rounded and packed is read as a nearest double, or as infinite.
-/
namespace Retouch.Number

/-! ### Doubles among the real numbers -/

/-- The number has the digits of a double; it can be too large for one. -/
def IsDouble (v : ℝ) : Prop := ∃ b : Binary, Canonical b.mantissa b.exponent ∧ b.value = v

/-- The double is a nearest one to the number. -/
structure Nearest (r v : ℝ) : Prop where
  double : IsDouble r
  least : ∀ d, IsDouble d → |r - v| ≤ |d - v|

theorem canonical_zero : Canonical 0 (-1074) := ⟨by decide, by decide, .inr rfl⟩

theorem IsDouble.zero : IsDouble 0 := ⟨⟨false, 0, -1074⟩, canonical_zero, by simp [Binary.value]⟩

theorem value_not (b : Binary) : Binary.value { b with negative := !b.negative } = -b.value := by
  unfold Binary.value
  cases b.negative <;> simp

theorem abs_value (negative : Bool) (m : Nat) (e : Int) : |Binary.value ⟨negative, m, e⟩| = m * 2 ^ e := by
  have nonneg : (0 : ℝ) ≤ m * 2 ^ e := by positivity
  cases negative with
  | false => rw [value_positive, abs_of_nonneg nonneg]
  | true => rw [value_negative, abs_neg, abs_of_nonneg nonneg]

theorem IsDouble.neg {v : ℝ} (double : IsDouble v) : IsDouble (-v) := by
  obtain ⟨b, canonical, rfl⟩ := double
  exact ⟨{ b with negative := !b.negative }, canonical, value_not b⟩

/-- Digits with room to the left are those of a double. -/
theorem isDouble_of_nat {n : Nat} {e : Int} (small : n ≤ 2 ^ 53) (least : -1074 ≤ e) : IsDouble (n * 2 ^ e) := by
  rcases Nat.eq_zero_or_pos n with rfl | positive
  · simpa using IsDouble.zero
  rcases Nat.lt_or_eq_of_le small with less | rfl
  · have log : n.log2 ≤ 52 := Nat.lt_succ_iff.mp ((Nat.log2_lt positive.ne').mpr less)
    -- The digits are shifted to the left as far as both bounds allow.
    obtain ⟨k, k_eq⟩ : ∃ k, k = min (52 - n.log2) (e + 1074).toNat := ⟨_, rfl⟩
    have shifted := log2_mul_two_pow positive k
    have positive' : 0 < n * 2 ^ k := Nat.mul_pos positive (Nat.two_pow_pos k)
    refine ⟨⟨false, n * 2 ^ k, e - k⟩, ⟨(Nat.log2_lt positive'.ne').mp (by omega), by dsimp only; omega, ?_⟩, ?_⟩
    · by_cases room : 52 - n.log2 ≤ (e + 1074).toNat
      · exact .inl ((Nat.le_log2 positive'.ne').mp (by omega))
      · exact .inr (by dsimp only; omega)
    · rw [value_positive, Nat.cast_mul, Nat.cast_pow, zpow_sub₀ (by norm_num), zpow_natCast]
      field_simp
      norm_num
  · refine ⟨⟨false, 2 ^ 52, e + 1⟩, ⟨by norm_num, by dsimp only; omega, .inl (Nat.le_refl _)⟩, ?_⟩
    rw [value_positive, zpow_add_one₀ (by norm_num)]
    push_cast
    ring

theorem isDouble_of_int {n : Int} {e : Int} (small : |n| ≤ 2 ^ 53) (least : -1074 ≤ e) : IsDouble (n * 2 ^ e) := by
  obtain ⟨k, rfl | rfl⟩ := n.eq_nat_or_neg
  · rw [Nat.abs_cast] at small
    exact_mod_cast isDouble_of_nat (by exact_mod_cast small) least
  · rw [abs_neg, Nat.abs_cast] at small
    rw [Int.cast_neg, Int.cast_natCast, neg_mul]
    exact (isDouble_of_nat (by exact_mod_cast small) least).neg

theorem isDouble_power (k : Nat) : IsDouble ((2 : ℝ) ^ k) := by
  have double := isDouble_of_nat (n := 1) (e := k) (by norm_num) (by omega)
  rwa [Nat.cast_one, one_mul, zpow_natCast] at double

/-- The largest double. -/
theorem isDouble_top : IsDouble ((2 : ℝ) ^ 1024 - 2 ^ 971) := by
  have double := isDouble_of_nat (n := 2 ^ 53 - 1) (e := 971) (by norm_num) (by norm_num)
  have same : ((2 ^ 53 - 1 : Nat) : ℝ) * 2 ^ (971 : Int) = 2 ^ 1024 - 2 ^ 971 := by
    rw [show (971 : Int) = ((971 : Nat) : Int) from rfl, zpow_natCast, Nat.cast_pred (Nat.two_pow_pos 53),
      Nat.cast_pow, Nat.cast_ofNat, sub_mul, ← pow_add, one_mul]
  rwa [same] at double

/-- Doubles from a power of two on are as far apart as its digits. -/
theorem IsDouble.multiple {d : ℝ} (double : IsDouble d) {k : Int} (large : (2 : ℝ) ^ k ≤ |d|) :
    ∃ n : Int, d = n * 2 ^ (k - 52) := by
  obtain ⟨⟨negative, m, e⟩, ⟨small, -, -⟩, rfl⟩ := double
  rw [abs_value] at large
  -- The exponent is not smaller, as the digits are bounded.
  have exponent : k - 52 ≤ e := by
    have few : (m : ℝ) < 2 ^ (53 : Int) := by exact_mod_cast small
    have less : (2 : ℝ) ^ k < 2 ^ (53 + e) := by
      calc (2 : ℝ) ^ k ≤ m * 2 ^ e := large
        _ < 2 ^ (53 : Int) * 2 ^ e := mul_lt_mul_of_pos_right few (by positivity)
        _ = 2 ^ (53 + e) := (zpow_add₀ (by norm_num) _ _).symm
    have := (zpow_lt_zpow_iff_right₀ (by norm_num : (1 : ℝ) < 2)).mp less
    omega
  obtain ⟨j, j_eq⟩ : ∃ j : Nat, e = k - 52 + j := ⟨(e - (k - 52)).toNat, by omega⟩
  have split : (m : ℝ) * 2 ^ e = (m * 2 ^ j : Nat) * 2 ^ (k - 52) := by
    rw [j_eq, zpow_add₀ (by norm_num), zpow_natCast]
    push_cast
    ring
  cases negative with
  | false => exact ⟨(m * 2 ^ j : Nat), by rw [value_positive, split]; norm_cast⟩
  | true => exact ⟨-(m * 2 ^ j : Nat), by rw [value_negative, split]; push_cast; ring⟩

/-! ### Nearest doubles -/

namespace Nearest

variable {r v d : ℝ}

/-- A double is nearest to itself only. -/
theorem eq_of_isDouble (nearest : Nearest r v) (double : IsDouble v) : r = v := by
  have none := nearest.least v double
  rw [sub_self, abs_zero] at none
  exact sub_eq_zero.mp (abs_nonpos_iff.mp none)

theorem neg (nearest : Nearest r v) : Nearest (-r) (-v) where
  double := nearest.double.neg
  least d double := by
    have opposite := nearest.least (-d) double.neg
    rw [← neg_add', abs_neg] at opposite
    rw [neg_sub_neg, abs_sub_comm]
    simpa [sub_eq_add_neg] using opposite

/-- Rounding does not pass a double. -/
theorem le_of_le (nearest : Nearest r v) (double : IsDouble d) (most : v ≤ d) : r ≤ d := by
  by_contra above
  have closest := nearest.least d double
  rw [abs_of_nonneg (by linarith), abs_of_nonneg (by linarith)] at closest
  linarith

theorem le_of_ge (nearest : Nearest r v) (double : IsDouble d) (least : d ≤ v) : d ≤ r := by
  have opposite := nearest.neg.le_of_le double.neg (neg_le_neg least)
  linarith

theorem abs (nearest : Nearest r v) : Nearest |r| |v| := by
  rcases le_total 0 v with above | below
  · rwa [abs_of_nonneg above, abs_of_nonneg (nearest.le_of_ge .zero above)]
  · rw [abs_of_nonpos below, abs_of_nonpos (nearest.le_of_le .zero below)]
    exact nearest.neg

/-- Rounding does not pass a power of two. -/
theorem abs_le_power (nearest : Nearest r v) {k : Nat} (bound : |v| ≤ 2 ^ k) : |r| ≤ 2 ^ k :=
  nearest.abs.le_of_le (isDouble_power k) bound

/-- Rounding moves a number by half of the distance between the doubles of its size at most. -/
theorem within (nearest : Nearest r v) {k : Int} (least : -1021 ≤ k) (bound : |v| ≤ 2 ^ k) :
    |r - v| ≤ 2 ^ (k - 54) := by
  -- The nearest multiple of that distance is a double.
  have unit : (0 : ℝ) < 2 ^ (k - 53) := by positivity
  have power : (2 : ℝ) ^ k = 2 ^ 53 * 2 ^ (k - 53) := by
    rw [← zpow_natCast, ← zpow_add₀ (by norm_num)]
    congr 1
    push_cast
    ring
  have half : (2 : ℝ) ^ (k - 54) = 1 / 2 * 2 ^ (k - 53) := by
    rw [show k - 53 = k - 54 + 1 by ring, zpow_add_one₀ (by norm_num)]
    ring
  obtain ⟨n, n_eq⟩ : ∃ n : Int, n = round (v / 2 ^ (k - 53)) := ⟨_, rfl⟩
  have near : |v / 2 ^ (k - 53) - n| ≤ 1 / 2 := n_eq ▸ abs_sub_round _
  have size : |v / 2 ^ (k - 53)| ≤ 2 ^ 53 := by
    rw [abs_div, abs_of_pos unit, div_le_iff₀ unit, ← power]
    exact bound
  have small : |n| ≤ 2 ^ 53 := by
    have less : |(n : ℝ)| < 2 ^ 53 + 1 := by
      have apart := abs_sub_abs_le_abs_sub (n : ℝ) (v / 2 ^ (k - 53))
      rw [abs_sub_comm] at near
      linarith
    have : |n| < 2 ^ 53 + 1 := by exact_mod_cast less
    omega
  calc |r - v| ≤ |n * 2 ^ (k - 53) - v| := nearest.least _ (isDouble_of_int small (by omega))
    _ = |v / 2 ^ (k - 53) - n| * 2 ^ (k - 53) := by
      rw [abs_sub_comm]
      nth_rewrite 3 [← abs_of_pos unit]
      rw [← abs_mul, sub_mul, div_mul_cancel₀ _ unit.ne']
    _ ≤ 2 ^ (k - 54) := by
      rw [half]
      exact mul_le_mul_of_nonneg_right near unit.le

end Nearest

/-! ### The unit of the smallest doubles -/

/-- An integer times the smallest double above zero. -/
inductive OnGrid (v : ℝ) : Prop
  | of (n : Int) (same : v = n * 2 ^ (-1074 : Int))

theorem IsDouble.onGrid (double : IsDouble v) : OnGrid v := by
  obtain ⟨⟨negative, m, e⟩, canonical, rfl⟩ := double
  have least : -1074 ≤ e := canonical.least
  obtain ⟨k, rfl⟩ : ∃ k : Nat, e = k + -1074 := ⟨(e + 1074).toNat, by omega⟩
  have digits : (m : ℝ) * 2 ^ ((k : Int) + -1074) = ((m * 2 ^ k : Nat) : ℝ) * 2 ^ (-1074 : Int) := by
    rw [zpow_add₀ (by norm_num), zpow_natCast]
    push_cast
    ring
  cases negative with
  | false => exact ⟨(m * 2 ^ k : Nat), by rw [value_positive, digits]; norm_cast⟩
  | true => exact ⟨-(m * 2 ^ k : Nat), by rw [value_negative, digits]; push_cast; ring⟩

theorem OnGrid.add (left : OnGrid r) (right : OnGrid s) : OnGrid (r + s) := by
  obtain ⟨m, rfl⟩ := left
  obtain ⟨n, rfl⟩ := right
  exact ⟨m + n, by push_cast; ring⟩

theorem OnGrid.sub (left : OnGrid r) (right : OnGrid s) : OnGrid (r - s) := by
  obtain ⟨m, rfl⟩ := left
  obtain ⟨n, rfl⟩ := right
  exact ⟨m - n, by push_cast; ring⟩

/-- What is above zero on the grid is not rounded below its half. -/
theorem Nearest.half_le (nearest : Nearest r v) (grid : OnGrid v) (positive : 0 < v) : v / 2 ≤ r := by
  obtain ⟨n, rfl⟩ := grid
  have unit : (0 : ℝ) < 2 ^ (-1074 : Int) := by positivity
  have some_ : 0 < n := by
    have : (0 : ℝ) < n := (mul_pos_iff_of_pos_right unit).mp positive
    exact_mod_cast this
  obtain ⟨m, rfl⟩ := Int.eq_ofNat_of_zero_le some_.le
  have some_ : m ≠ 0 := by
    rintro rfl
    exact absurd some_ (lt_irrefl _)
  -- The power of two below the digits is a double.
  have double := isDouble_of_nat (n := 1) (e := m.log2 + -1074) (by norm_num) (by omega)
  rw [Nat.cast_one, one_mul, zpow_add₀ (by norm_num), zpow_natCast] at double
  have below : (2 : ℝ) ^ m.log2 ≤ m := by exact_mod_cast Nat.log2_self_le some_
  have above : (m : ℝ) ≤ 2 ^ m.log2 * 2 := by
    rw [← pow_succ]
    exact_mod_cast (Nat.lt_log2_self (n := m)).le
  have least := nearest.le_of_ge double (mul_le_mul_of_nonneg_right below unit.le)
  have most := mul_le_mul_of_nonneg_right above unit.le
  push_cast at most ⊢
  linarith

/-- The integer nearest to some digits makes a nearest double, if the digits are as many as a double has or the exponent
is the least one. -/
theorem nearest_of_digits {n : Nat} {x : ℝ} {e : Int} (nonneg : 0 ≤ x) (close : |n - x| ≤ 1 / 2) (small : n ≤ 2 ^ 53)
    (least : -1074 ≤ e) (full : 2 ^ 52 ≤ x ∨ e = -1074) : Nearest (n * 2 ^ e) (x * 2 ^ e) where
  double := isDouble_of_nat small least
  least := by
    have unit : (0 : ℝ) < 2 ^ e := by positivity
    have scaled (y : ℝ) : |y * 2 ^ e - x * 2 ^ e| = |y - x| * 2 ^ e := by
      rw [← sub_mul, abs_mul, abs_of_pos unit]
    -- No integer is nearer.
    have integers (k : Int) : |(n : ℝ) - x| ≤ |k - x| := by
      by_cases same : k = n
      · rw [same, Int.cast_natCast]
      · have apart : (1 : ℝ) ≤ |((k - n : Int) : ℝ)| := by exact_mod_cast Int.one_le_abs (sub_ne_zero.mpr same)
        have sum := abs_add_le ((k : ℝ) - x) (x - n)
        rw [sub_add_sub_cancel, abs_sub_comm x] at sum
        push_cast at apart
        linarith
    have zero := integers 0
    rw [Int.cast_zero, zero_sub, abs_neg, abs_of_nonneg nonneg] at zero
    rintro d ⟨⟨negative, m, d⟩, canonical, rfl⟩
    rw [scaled]
    cases negative with
    | true =>
      -- Below zero every double is farther off than zero.
      have digits : (0 : ℝ) ≤ m * 2 ^ d := by positivity
      have off := mul_nonneg nonneg unit.le
      have far : |-((m : ℝ) * 2 ^ d) - x * 2 ^ e| = x * 2 ^ e + m * 2 ^ d := by
        rw [abs_sub_comm, abs_of_nonneg (by linarith)]
        ring
      have := mul_le_mul_of_nonneg_right zero unit.le
      rw [value_negative, far]
      linarith
    | false =>
      rw [value_positive]
      by_cases coarse : e ≤ d
      · obtain ⟨j, rfl⟩ : ∃ j : Nat, d = e + j := ⟨(d - e).toNat, by omega⟩
        have split : (m : ℝ) * 2 ^ (e + j : Int) = (m * 2 ^ j : Nat) * 2 ^ e := by
          rw [zpow_add₀ (by norm_num), zpow_natCast]
          push_cast
          ring
        rw [split, scaled]
        exact mul_le_mul_of_nonneg_right (by exact_mod_cast integers (m * 2 ^ j : Nat)) unit.le
      · -- Doubles with a smaller exponent lie below all digits that are as many.
        have full : 2 ^ 52 ≤ x := full.resolve_right (by have := canonical.least; dsimp only at this; omega)
        have top : |(n : ℝ) - x| ≤ x - 2 ^ 52 := by
          have closest := integers (2 ^ 52 : Nat)
          push_cast at closest
          have past : |(4503599627370496 : ℝ) - x| = x - 2 ^ 52 := by
            rw [abs_sub_comm, abs_of_nonneg (by linarith)]
            norm_num
          rwa [past] at closest
        have below : (m : ℝ) * 2 ^ d ≤ 2 ^ 52 * 2 ^ e := by
          have few : (m : ℝ) ≤ 2 ^ 53 := by exact_mod_cast canonical.small.le
          calc (m : ℝ) * 2 ^ d ≤ 2 ^ 53 * 2 ^ d := mul_le_mul_of_nonneg_right few (by positivity)
            _ = 2 ^ 52 * 2 ^ (d + 1) := by rw [zpow_add_one₀ (by norm_num)]; ring
            _ ≤ 2 ^ 52 * 2 ^ e := by
              refine mul_le_mul_of_nonneg_left ?_ (by positivity)
              exact zpow_le_zpow_right₀ (by norm_num) (by omega)
        have above := mul_le_mul_of_nonneg_right full unit.le
        have far : |(m : ℝ) * 2 ^ d - x * 2 ^ e| = x * 2 ^ e - m * 2 ^ d := by
          rw [abs_sub_comm, abs_of_nonneg (by linarith)]
        have := mul_le_mul_of_nonneg_right top unit.le
        rw [far]
        linarith

/-! ### Shifting out digits -/

section rounding

open Float.Model Float.Model.UnpackedFloat

/-- The digits that are kept of a number, and the two bits behind them. -/
inductive Describes : ExtendedMantissa → ℝ → Prop
  | whole (m : Nat) {x : ℝ} (same : x = m) : Describes ⟨m, false, false⟩ x
  | lower (m : Nat) {x : ℝ} (above : m < x) (below : x < m + 1 / 2) : Describes ⟨m, false, true⟩ x
  | middle (m : Nat) {x : ℝ} (same : x = m + 1 / 2) : Describes ⟨m, true, false⟩ x
  | upper (m : Nat) {x : ℝ} (above : m + 1 / 2 < x) (below : x < m + 1) : Describes ⟨m, true, true⟩ x

theorem describes_exact (m : Nat) : Describes (.ofMantissaAndAccuracy m .exact) m := .whole m rfl

theorem Describes.bounds {em : ExtendedMantissa} {x : ℝ} (describes : Describes em x) :
    em.mantissa ≤ x ∧ x < em.mantissa + 1 := by
  cases describes <;> constructor <;> linarith

/-- What is left of a quotient is told by its remainder. -/
theorem describes_quotient (num : Nat) {den : Nat} (positive : 0 < den) :
    Describes (.ofMantissaAndAccuracy (num / den) (accuracyOfFraction (num % den) den)) ((num : ℝ) / den) := by
  have positive' : (0 : ℝ) < den := by exact_mod_cast positive
  have whole : (num : ℝ) = den * (num / den : Nat) + (num % den : Nat) := by exact_mod_cast (Nat.div_add_mod num den).symm
  have split : (num : ℝ) / den = (num / den : Nat) + (num % den : Nat) / den := by
    rw [eq_comm, ← sub_eq_zero]
    field_simp
    linarith
  have less : (num % den : Nat) < (den : ℝ) := by exact_mod_cast Nat.mod_lt num positive
  have one : ((num % den : Nat) : ℝ) / den < 1 := (div_lt_one positive').mpr less
  have half : ((num % den : Nat) : ℝ) / den < 1 / 2 ↔ 2 * (num % den) < den := by
    rw [div_lt_iff₀ positive']
    constructor
    · intro below
      have : (2 * (num % den : Nat) : ℝ) < den := by linarith
      exact_mod_cast this
    · intro below
      have : (2 * (num % den : Nat) : ℝ) < den := by exact_mod_cast below
      linarith
  have more : 1 / 2 < ((num % den : Nat) : ℝ) / den ↔ den < 2 * (num % den) := by
    rw [lt_div_iff₀ positive']
    constructor
    · intro above
      have : (den : ℝ) < 2 * (num % den : Nat) := by linarith
      exact_mod_cast this
    · intro above
      have : (den : ℝ) < 2 * (num % den : Nat) := by exact_mod_cast above
      linarith
  rw [split]
  generalize whole_eq : num / den = q at *
  generalize rest_eq : num % den = r at *
  unfold accuracyOfFraction
  by_cases none : r = 0
  · rw [if_pos none]
    exact .whole q (by simp [none])
  · have some_ : (0 : ℝ) < (r : ℝ) / den := div_pos (by exact_mod_cast Nat.pos_of_ne_zero none) positive'
    rw [if_neg none]
    cases compared : compare (2 * r) den with
    | lt =>
      have below := half.mpr (compare_lt_iff_lt.mp compared)
      exact .lower q (by linarith) (by linarith)
    | eq =>
      have same := compare_eq_iff_eq.mp compared
      have exact_ : (r : ℝ) / den = 1 / 2 := by
        rw [div_eq_iff positive'.ne']
        have : (2 * r : ℝ) = den := by exact_mod_cast same
        linarith
      exact .middle q (by rw [exact_])
    | gt =>
      have above := more.mpr (compare_gt_iff_gt.mp compared)
      exact .upper q (by linarith) (by linarith)

/-- Either nothing stands behind the digits, or something that is less than one. -/
theorem Describes.apart {m : Nat} {bit sticky : Bool} {x : ℝ} (describes : Describes ⟨m, bit, sticky⟩ x) :
    (bit || sticky) = false ∧ x = m ∨ (bit || sticky) = true ∧ m < x ∧ x < m + 1 := by
  cases describes with
  | whole _ same => exact .inl ⟨rfl, same⟩
  | lower _ above below => exact .inr ⟨rfl, above, by linarith⟩
  | middle _ same => exact .inr ⟨rfl, by linarith, by linarith⟩
  | upper _ above below => exact .inr ⟨rfl, by linarith, below⟩

theorem Describes.halved {em : ExtendedMantissa} {x : ℝ} (describes : Describes em x) :
    Describes em.shiftRightOne (x / 2) := by
  obtain ⟨m, bit, sticky⟩ := em
  have split : (m : ℝ) = 2 * (m / 2 : Nat) + (m % 2 : Nat) := by exact_mod_cast (Nat.div_add_mod m 2).symm
  have shape : (⟨m, bit, sticky⟩ : ExtendedMantissa).shiftRightOne = ⟨m / 2, m % 2 != 0, bit || sticky⟩ := rfl
  rw [shape]
  -- The digit that is shifted out becomes the first bit, so it tells in which half the number lies now.
  rcases Nat.mod_two_eq_zero_or_one m with even | odd
  · rw [even, Nat.cast_zero] at split
    rw [even]
    rcases describes.apart with ⟨none, same⟩ | ⟨more, above, below⟩
    · rw [none]
      exact .whole _ (by linarith)
    · rw [more]
      exact .lower _ (by linarith) (by linarith)
  · rw [odd, Nat.cast_one] at split
    rw [odd]
    rcases describes.apart with ⟨none, same⟩ | ⟨more, above, below⟩
    · rw [none]
      exact .middle _ (by linarith)
    · rw [more]
      exact .upper _ (by linarith) (by linarith)

theorem Describes.shift {em : ExtendedMantissa} {x : ℝ} (describes : Describes em x) (k : Nat) :
    Describes (em >>> k) (x / 2 ^ k) := by
  have each : Describes (Nat.repeat ExtendedMantissa.shiftRightOne k em) (x / 2 ^ k) := by
    induction k with
    | zero => simpa [Nat.repeat] using describes
    | succ k ih =>
      rw [pow_succ, ← div_div]
      exact ih.halved
  exact each

/-- What is kept is rounded to an integer nearest to the number. -/
theorem Describes.rounded {em : ExtendedMantissa} {x : ℝ} (describes : Describes em x) :
    |(em.roundedMantissa : ℝ) - x| ≤ 1 / 2 := by
  obtain ⟨m, bit, sticky⟩ := em
  have parity : ((m % 2 : Nat) : ℝ) = 0 ∨ ((m % 2 : Nat) : ℝ) = 1 := by
    rcases Nat.mod_two_eq_zero_or_one m with even | odd
    · exact .inl (by rw [even, Nat.cast_zero])
    · exact .inr (by rw [odd, Nat.cast_one])
  cases describes <;>
    simp only [ExtendedMantissa.roundedMantissa, ExtendedMantissa.accuracy, Accuracy.roundToNearestEven] <;>
    push_cast <;> rw [abs_le] <;> constructor <;> rcases parity with zero | one <;> linarith

/-! ### Rounding and packing -/

theorem reading_zero (s : Sign) :
    reading (.ofModel (Float.Model.pack (.zero s))) = .finite ⟨s == .negative, 0, -1074⟩ := by
  rw [reading_ofModel]
  cases s <;> decide +kernel

/-- The digits of a number, shifted to the exponent that a double of its size has. -/
theorem digits_shifted {em : ExtendedMantissa} {e : Int} {x : ℝ} (describes : Describes em x)
    (low : e ≤ fit em.mantissa e) :
    let k := (fit em.mantissa e - e).toNat
    e + k = fit em.mantissa e ∧ -1074 ≤ e + k ∧ 0 ≤ x / 2 ^ k ∧ x / 2 ^ k < 2 ^ 53 ∧
      (2 ^ 52 ≤ x / 2 ^ k ∨ e + k = -1074) ∧ x * 2 ^ e = x / 2 ^ k * 2 ^ (e + k : Int) := by
  obtain ⟨k, k_eq⟩ : ∃ k, k = (fit em.mantissa e - e).toNat := ⟨_, rfl⟩
  rw [← k_eq]
  obtain ⟨least, below⟩ := describes.bounds
  have power : (0 : ℝ) < 2 ^ k := by positivity
  have nonneg : (0 : ℝ) ≤ em.mantissa := Nat.cast_nonneg _
  have target : e + k = fit em.mantissa e := by omega
  refine ⟨target, by rw [target]; unfold fit; omega, div_nonneg (nonneg.trans least) power.le, ?_, ?_, ?_⟩
  · rw [div_lt_iff₀ power]
    have few : em.mantissa + 1 ≤ 2 ^ (em.mantissa.log2 + 1) := Nat.lt_log2_self
    have room : em.mantissa.log2 + 1 ≤ 53 + k := by
      unfold fit at target
      omega
    calc x < (em.mantissa + 1 : Nat) := by exact_mod_cast below
      _ ≤ (2 ^ (53 + k) : Nat) := by exact_mod_cast few.trans (Nat.pow_le_pow_right (by decide) room)
      _ = 2 ^ 53 * 2 ^ k := by push_cast; rw [pow_add]
  · by_cases tiny : fit em.mantissa e = -1074
    · exact .inr (target.trans tiny)
    · left
      have exact_ : em.mantissa.log2 = 52 + k := by
        unfold fit at target tiny low
        omega
      have some_ : em.mantissa ≠ 0 := by
        intro none
        rw [none] at exact_
        simp at exact_
        omega
      rw [le_div_iff₀ power, ← pow_add, ← exact_]
      calc (2 : ℝ) ^ em.mantissa.log2 = (2 ^ em.mantissa.log2 : Nat) := by push_cast; rfl
        _ ≤ em.mantissa := by exact_mod_cast (Nat.le_log2 some_).mp (Nat.le_refl _)
        _ ≤ x := least
  · rw [zpow_add₀ (by norm_num), zpow_natCast]
    field_simp

/-- The float that is rounded and packed is read as a nearest double, or as infinite if that is too large. -/
theorem reading_rounded (s : Sign) {m : Nat} {e : Int} {accuracy : Accuracy} {x : ℝ}
    (describes : Describes (.ofMantissaAndAccuracy m accuracy) x) (low : e ≤ fit m e) :
    ∃ n d, Canonical n d ∧ Nearest (n * 2 ^ d) (x * 2 ^ e) ∧
      reading (.ofModel (Float.Model.pack (roundWithAccuracy Format.binary64 s m e accuracy))) =
        if 972 ≤ d then .infinite (s == .negative) else .finite ⟨s == .negative, n, d⟩ := by
  have digits : (ExtendedMantissa.ofMantissaAndAccuracy m accuracy).mantissa = m := by
    cases accuracy with
    | exact => rfl
    | inexact order => cases order <;> rfl
  obtain ⟨target, least, nonneg, few, full, value⟩ := digits_shifted describes (digits ▸ low)
  rw [digits] at target least nonneg few full value
  generalize k_eq : (fit m e - e).toNat = k at *
  have first : shiftToTargetExponent Format.binary64 m e accuracy =
      (ExtendedMantissa.ofMantissaAndAccuracy m accuracy >>> k, e + k) := by
    unfold shiftToTargetExponent shiftToExponent
    rw [targetExponent_eq]
    dsimp only
    rw [k_eq]
  obtain ⟨n, n_eq⟩ : ∃ n, n = (ExtendedMantissa.ofMantissaAndAccuracy m accuracy >>> k).roundedMantissa := ⟨_, rfl⟩
  have close : |(n : ℝ) - x / 2 ^ k| ≤ 1 / 2 := n_eq ▸ (describes.shift k).rounded
  have small : n ≤ 2 ^ 53 := by
    have bound := (abs_le.mp close).2
    have : (n : ℝ) < 2 ^ 53 + 1 := by linarith
    have : n < 2 ^ 53 + 1 := by exact_mod_cast this
    omega
  have nearest : Nearest (n * 2 ^ (e + k : Int)) (x * 2 ^ e) := value ▸ nearest_of_digits nonneg close small least full
  have rounded : roundWithAccuracy Format.binary64 s m e accuracy =
      let (em, d) := shiftToTargetExponent Format.binary64 n (e + k) .exact
      if h : em.mantissa = 0 then .zero s else .finite s em.mantissa d (Nat.pos_of_ne_zero h) := by
    unfold roundWithAccuracy
    rw [first, n_eq]
  rcases Nat.eq_zero_or_pos n with rfl | positive
  · -- Nothing is left but zero.
    refine ⟨0, -1074, canonical_zero, by simpa using nearest, ?_⟩
    have none : (shiftToTargetExponent Format.binary64 0 (e + k) .exact).1.mantissa = 0 := by
      unfold shiftToTargetExponent shiftToExponent
      dsimp only
      rw [mantissa_shiftRight]
      exact Nat.zero_div _
    rw [rounded]
    dsimp only
    rw [dif_pos none, reading_zero, if_neg (by decide)]
  rcases Nat.lt_or_eq_of_le small with less | rfl
  · -- The digits have their place already.
    have log : n.log2 ≤ 52 := Nat.lt_succ_iff.mp ((Nat.log2_lt positive.ne').mpr less)
    have canonical : Canonical n (e + k) := by
      refine ⟨less, least, ?_⟩
      rcases full with full | tiny
      · left
        have bound := (abs_le.mp close).1
        have : (2 ^ 52 : ℝ) < n + 1 := by linarith
        have : 2 ^ 52 < n + 1 := by exact_mod_cast this
        omega
      · exact .inr tiny
    have stays : shiftToTargetExponent Format.binary64 n (e + k) .exact = (⟨n, false, false⟩, e + k) := by
      have amount : (fit n (e + k) - (e + k)).toNat = 0 := by
        unfold fit
        omega
      unfold shiftToTargetExponent shiftToExponent
      rw [targetExponent_eq]
      dsimp only
      rw [amount, accuracy_exact, Nat.cast_zero, add_zero]
      rfl
    refine ⟨n, e + k, canonical, nearest, ?_⟩
    rw [rounded, stays]
    dsimp only
    rw [dif_neg positive.ne', reading_ofModel, ofUnpacked_pack canonical positive]
  · -- Rounding has made one digit more.
    have canonical : Canonical (2 ^ 52) (e + k + (1 : Nat)) := ⟨by norm_num, by push_cast; omega, .inl (Nat.le_refl _)⟩
    have fits : fit (2 ^ 52 * 2 ^ 1) (e + k) = e + k + (1 : Nat) := by
      unfold fit
      rw [← pow_add, Nat.log2_two_pow]
      push_cast
      omega
    have moves := shiftToTarget_zeros fits
    have same : ((2 ^ 53 : Nat) : ℝ) * 2 ^ (e + k : Int) = ((2 ^ 52 : Nat) : ℝ) * 2 ^ (e + k + (1 : Nat) : Int) := by
      rw [Nat.cast_one, zpow_add_one₀ (by norm_num)]
      push_cast
      ring
    refine ⟨2 ^ 52, _, canonical, same ▸ nearest, ?_⟩
    rw [rounded]
    rw [← pow_add] at moves
    rw [moves]
    dsimp only
    rw [dif_neg (Nat.two_pow_pos 52).ne', reading_ofModel, ofUnpacked_pack canonical (Nat.two_pow_pos 52)]

end rounding

end Retouch.Number
