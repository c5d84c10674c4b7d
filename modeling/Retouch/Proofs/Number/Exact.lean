import Retouch.Number.Amount
import Retouch.Proofs.Number.Double

/-!
# Amounts as exact numbers

An amount stands for a number, which can be infinite, or for none. Amounts are compared as the numbers that they
stand for, whatever they are; to double an amount is exact as long as the result is in the range of doubles.

## Main statements

* `Amount.below_iff`: comparing amounts is comparing their numbers.
* `Amount.value?_smaller`: the smaller amount is the minimum.
* `Amount.value?_doubled`: what doubling an amount several times gives.
-/
namespace Retouch.Number

/-- The number that a finite double stands for. -/
noncomputable def Binary.value (b : Binary) : ℝ := (if b.negative then -1 else 1) * b.mantissa * 2 ^ b.exponent

/-- The number that a double stands for, if it is one. -/
noncomputable def Reading.value? : Reading → Option EReal
  | .nan => none
  | .infinite negative => some (if negative then ⊥ else ⊤)
  | .finite b => some (b.value : ℝ)

/-- The number that an amount stands for, if it is one. -/
noncomputable def Amount.value? : Amount → Option EReal
  | .whole n => some ((n : ℝ) : EReal)
  | .decimal x => (reading x).value?

/-! ### Canonical digits -/

namespace Canonical

variable {m n : Nat} {d e : Int}

theorem lt_of_exponents (canonical : Canonical m d) (canonical' : Canonical n e) (less : d < e) :
    (m : ℝ) * 2 ^ d < n * 2 ^ e := by
  have full : 2 ^ 52 ≤ n := canonical'.full.resolve_right (by have := canonical.least; omega)
  have low : (m : ℝ) < 2 ^ 53 := by exact_mod_cast canonical.small
  have high : (2 : ℝ) ^ 52 ≤ n := by exact_mod_cast full
  calc (m : ℝ) * 2 ^ d < 2 ^ 53 * 2 ^ d := mul_lt_mul_of_pos_right low (by positivity)
    _ = 2 ^ 52 * 2 ^ (d + 1) := by rw [zpow_add_one₀ (by norm_num)]; ring
    _ ≤ 2 ^ 52 * 2 ^ e := by
      refine mul_le_mul_of_nonneg_left ?_ (by positivity)
      exact zpow_le_zpow_right₀ (by norm_num) (by omega)
    _ ≤ n * 2 ^ e := mul_le_mul_of_nonneg_right high (by positivity)

/-- Canonical numbers are compared by their exponents first. -/
theorem lt_iff (canonical : Canonical m d) (canonical' : Canonical n e) :
    (m : ℝ) * 2 ^ d < n * 2 ^ e ↔ d < e ∨ d = e ∧ m < n := by
  rcases lt_trichotomy d e with less | same | more
  · exact ⟨fun _ => .inl less, fun _ => canonical.lt_of_exponents canonical' less⟩
  · subst same
    have power : (0 : ℝ) < 2 ^ d := by positivity
    rw [mul_lt_mul_iff_left₀ power, Nat.cast_lt]
    simp
  · have above := canonical'.lt_of_exponents canonical more
    constructor
    · intro below
      exact absurd below (not_lt_of_gt above)
    · rintro (less | ⟨same, -⟩) <;> omega

/-- Larger exponents lead out of the range of doubles. -/
theorem limit_le (canonical : Canonical m d) (outside : 972 ≤ d) : (2 : ℝ) ^ 1024 ≤ m * 2 ^ d := by
  have full : 2 ^ 52 ≤ m := canonical.full.resolve_right (by omega)
  have high : (2 : ℝ) ^ 52 ≤ m := by exact_mod_cast full
  calc (2 : ℝ) ^ 1024 = 2 ^ 52 * 2 ^ (972 : Int) := by
        rw [show (972 : Int) = ((972 : Nat) : Int) from rfl, zpow_natCast, ← pow_add]
    _ ≤ 2 ^ 52 * 2 ^ d := by
      refine mul_le_mul_of_nonneg_left ?_ (by positivity)
      exact zpow_le_zpow_right₀ (by norm_num) outside
    _ ≤ m * 2 ^ d := mul_le_mul_of_nonneg_right high (by positivity)

end Canonical

/-! ### Comparing doubles -/

section compare

open Float.Model Float.Model.UnpackedFloat

theorem value_positive (m : Nat) (e : Int) : Binary.value ⟨false, m, e⟩ = m * 2 ^ e := by
  simp [Binary.value]

theorem value_negative (m : Nat) (e : Int) : Binary.value ⟨true, m, e⟩ = -(m * 2 ^ e) := by
  simp [Binary.value]

/-- A float that is unpacked as a number has canonical digits. -/
theorem canonical_of_unpack {x : Float} {s : Sign} {m : Nat} {e : Int} {positive : 0 < m}
    (unpacked : x.toModel.unpack = .finite s m e positive) : Canonical m e ∧ e ≤ 971 := by
  have read : reading x = .finite ⟨s == .negative, m, e⟩ := by rw [reading_eq, unpacked]; rfl
  exact canonical_of_reading read

theorem compare_exponents (d e : Int) (m n : Nat) :
    (compare d e).then (compare m n) = .lt ↔ d < e ∨ d = e ∧ m < n := by
  rw [Ordering.then_eq_lt, compare_lt_iff_lt, compare_eq_iff_eq, compare_lt_iff_lt]

theorem compare_exponents_swap (d e : Int) (m n : Nat) :
    (compare d e).then (compare m n) = .gt ↔ e < d ∨ e = d ∧ n < m := by
  rw [Ordering.then_eq_gt, compare_gt_iff_gt, compare_eq_iff_eq, compare_gt_iff_gt]
  exact or_congr Iff.rfl (and_congr eq_comm Iff.rfl)

/-- The number of a float by the way it is unpacked. -/
inductive Stands : UnpackedFloat → EReal → Prop where
  | top : Stands (.infinity .positive) ⊤
  | bottom : Stands (.infinity .negative) ⊥
  | zero (s : Sign) : Stands (.zero s) 0
  | above (m : Nat) (e : Int) (positive : 0 < m) (r : ℝ) (digits : m * 2 ^ e = r) :
    Stands (.finite .positive m e positive) r
  | below (m : Nat) (e : Int) (positive : 0 < m) (r : ℝ) (digits : m * 2 ^ e = -r) :
    Stands (.finite .negative m e positive) r

theorem stands_of_value? {u : UnpackedFloat} {v : EReal} (known : (Reading.ofUnpacked u).value? = some v) :
    Stands u v := by
  cases u with
  | notANumber => cases known
  | infinity s =>
    cases s with
    | positive => exact Option.some.inj known ▸ .top
    | negative => exact Option.some.inj known ▸ .bottom
  | zero s =>
    have nothing : v = 0 := by
      rw [← Option.some.inj known]
      simp [Binary.value]
    exact nothing ▸ .zero s
  | finite s m e positive =>
    cases s with
    | positive =>
      rw [← Option.some.inj known]
      exact .above m e positive _ (value_positive m e).symm
    | negative =>
      rw [← Option.some.inj known]
      exact .below m e positive _ (neg_eq_iff_eq_neg.mpr (value_negative m e)).symm

theorem digits_pos {m : Nat} (positive : 0 < m) (e : Int) : (0 : ℝ) < m * 2 ^ e := by
  have digits : (0 : ℝ) < m := by exact_mod_cast positive
  positivity

/-- Doubles are compared as the numbers that they stand for. -/
theorem lt_iff_value {x y : Float} {v w : EReal} (left : (reading x).value? = some v)
    (right : (reading y).value? = some w) : x < y ↔ v < w := by
  have unfolded : x < y ↔ x.toModel.unpack.compare y.toModel.unpack = some .lt := by
    have lt : x < y ↔ x.toModel.unpack.lt y.toModel.unpack = true := decide_eq_true_iff
    rw [lt, UnpackedFloat.lt, beq_iff_eq]
  rw [unfolded]
  rw [reading_eq] at left right
  have number := stands_of_value? left
  have number' := stands_of_value? right
  generalize unpacked : x.toModel.unpack = u at *
  generalize unpacked' : y.toModel.unpack = u' at *
  cases number with
  | top => cases number' <;> simp [UnpackedFloat.compare]
  | bottom =>
    cases number' with
    | top =>
      simp [UnpackedFloat.compare]
      rfl
    | _ => simp [UnpackedFloat.compare]
  | zero s =>
    cases number' with
    | above n e positive r digits => simpa [UnpackedFloat.compare] using digits ▸ digits_pos positive e
    | below n e positive r digits =>
      have negative : 0 < -r := digits ▸ digits_pos positive e
      simpa [UnpackedFloat.compare] using (neg_pos.mp negative).le
    | _ => simp [UnpackedFloat.compare]
  | above m d positive r digits =>
    have above : 0 < r := digits ▸ digits_pos positive d
    cases number' with
    | zero s' => simpa [UnpackedFloat.compare] using above.le
    | above n e positive' r' digits' =>
      have canonical := (canonical_of_unpack unpacked).1.lt_iff (canonical_of_unpack unpacked').1
      rw [digits, digits'] at canonical
      simp [UnpackedFloat.compare, compare_exponents, canonical]
    | below n e positive' r' digits' =>
      have below : 0 < -r' := digits' ▸ digits_pos positive' e
      have less : r' ≤ r := by linarith
      simpa [UnpackedFloat.compare] using less
    | _ => simp [UnpackedFloat.compare]
  | below m d positive r digits =>
    have below : 0 < -r := digits ▸ digits_pos positive d
    cases number' with
    | zero s' => simpa [UnpackedFloat.compare] using neg_pos.mp below
    | above n e positive' r' digits' =>
      have above : 0 < r' := digits' ▸ digits_pos positive' e
      have less : r < r' := by linarith
      simpa [UnpackedFloat.compare] using less
    | below n e positive' r' digits' =>
      have canonical := (canonical_of_unpack unpacked').1.lt_iff (canonical_of_unpack unpacked).1
      rw [digits, digits', neg_lt_neg_iff] at canonical
      simp [UnpackedFloat.compare, compare_exponents_swap, canonical]
    | _ => simp [UnpackedFloat.compare]

end compare

/-! ### Comparing amounts -/

theorem value_mul_quotient (b : Binary) : 0 < b.quotient.2 ∧ b.value * b.quotient.2 = b.quotient.1 := by
  obtain ⟨negative, m, e⟩ := b
  unfold Binary.quotient Binary.scaled Binary.value
  cases e with
  | ofNat up => cases negative <;> simp
  | negSucc down =>
    have power : (2 : ℝ) ^ (down + 1) ≠ 0 := by positivity
    cases negative <;> simp [zpow_negSucc, power]

theorem lt_value_iff (n : Int) (b : Binary) : (n : ℝ) < b.value ↔ n * b.quotient.2 < b.quotient.1 := by
  obtain ⟨positive, product⟩ := value_mul_quotient b
  have positive : (0 : ℝ) < b.quotient.2 := by exact_mod_cast positive
  rw [← mul_lt_mul_iff_left₀ positive, product]
  exact_mod_cast Iff.rfl

theorem value_lt_iff (n : Int) (b : Binary) : b.value < n ↔ b.quotient.1 < n * b.quotient.2 := by
  obtain ⟨positive, product⟩ := value_mul_quotient b
  have positive : (0 : ℝ) < b.quotient.2 := by exact_mod_cast positive
  rw [← mul_lt_mul_iff_left₀ positive, product]
  exact_mod_cast Iff.rfl

namespace Amount

/-- Amounts are compared as the numbers that they stand for. -/
theorem below_iff {a b : Amount} {v w : EReal} (left : a.value? = some v) (right : b.value? = some w) :
    a.below b = true ↔ v < w := by
  cases a with
  | whole m =>
    obtain rfl := Option.some.inj left
    cases b with
    | whole n =>
      obtain rfl := Option.some.inj right
      simp [below]
    | decimal y =>
      cases read : reading y with
      | nan => simp [value?, read, Reading.value?] at right
      | infinite negative =>
        obtain rfl : (if negative then ⊥ else ⊤) = w := by simpa [value?, read, Reading.value?] using right
        cases negative <;> simp [below, read]
      | finite b =>
        obtain rfl : ((b.value : ℝ) : EReal) = w := by simpa [value?, read, Reading.value?] using right
        rw [EReal.coe_lt_coe_iff, lt_value_iff]
        simp [below, read]
  | decimal x =>
    cases b with
    | whole n =>
      obtain rfl := Option.some.inj right
      cases read : reading x with
      | nan => simp [value?, read, Reading.value?] at left
      | infinite negative =>
        obtain rfl : (if negative then ⊥ else ⊤) = v := by simpa [value?, read, Reading.value?] using left
        cases negative <;> simp [below, read]
      | finite b =>
        obtain rfl : ((b.value : ℝ) : EReal) = v := by simpa [value?, read, Reading.value?] using left
        rw [EReal.coe_lt_coe_iff, value_lt_iff]
        simp [below, read]
    | decimal y => simpa [below] using lt_iff_value left right

/-- The smaller amount is the minimum. -/
theorem value?_smaller {a b : Amount} {v w : EReal} (left : a.value? = some v) (right : b.value? = some w) :
    (a.smaller b).value? = some (min v w) := by
  unfold smaller
  by_cases less : b.below a = true
  · rw [if_pos less, min_eq_right ((below_iff right left).mp less).le]
    exact right
  · rw [if_neg less, min_eq_left (not_lt.mp fun below => less ((below_iff right left).mpr below))]
    exact left

end Amount

/-! ### Doubling -/

/-- What is known of a product that is out of the range of doubles. -/
inductive Beyond (exact : EReal) : EReal → Prop where
  | top (large : ((2 ^ 1024 : ℝ) : EReal) ≤ exact) : Beyond exact ⊤
  | bottom (large : exact ≤ ((-2 ^ 1024 : ℝ) : EReal)) : Beyond exact ⊥

/-- A product of canonical digits and a power of two, in the range of doubles or not. -/
theorem beyond_of_digits {b : Binary} {m k i : Nat} {e : Int} (canonical : Canonical m e)
    (same : m * 2 ^ k = b.mantissa * 2 ^ 52) (exponent : e = b.exponent + i - 52 + k) :
    Binary.value ⟨b.negative, m, e⟩ = b.value * 2 ^ i ∧ (972 ≤ e →
      Beyond ((b.value * 2 ^ i : ℝ) : EReal) (if b.negative then ⊥ else ⊤)) := by
  have digits : (m : ℝ) * 2 ^ e = b.mantissa * 2 ^ b.exponent * 2 ^ i := by
    have same : (m : ℝ) * 2 ^ k = b.mantissa * 2 ^ 52 := by exact_mod_cast same
    have power : (2 : ℝ) ^ e * 2 ^ 52 = 2 ^ b.exponent * 2 ^ i * 2 ^ k := by
      rw [exponent, ← zpow_natCast 2 i, ← zpow_natCast 2 k, ← zpow_natCast 2 52]
      rw [← zpow_add₀ (by norm_num), ← zpow_add₀ (by norm_num), ← zpow_add₀ (by norm_num)]
      congr 1
      push_cast
      ring
    have cancel : (2 : ℝ) ^ 52 ≠ 0 := by positivity
    refine mul_right_cancel₀ cancel ?_
    calc (m : ℝ) * 2 ^ e * 2 ^ 52 = m * 2 ^ k * (2 ^ b.exponent * 2 ^ i) := by rw [mul_assoc, power]; ring
      _ = b.mantissa * 2 ^ b.exponent * 2 ^ i * 2 ^ 52 := by rw [same]; ring
  have value : Binary.value ⟨b.negative, m, e⟩ = b.value * 2 ^ i := by
    unfold Binary.value
    rw [mul_assoc, digits]
    ring
  refine ⟨value, fun outside => ?_⟩
  have large := canonical.limit_le outside
  rw [← value]
  cases b.negative with
  | false =>
    refine .top ?_
    rw [value_positive, EReal.coe_le_coe_iff]
    exact large
  | true =>
    refine .bottom ?_
    rw [value_negative, EReal.coe_le_coe_iff]
    exact neg_le_neg large

section special

open Float.Model Float.Model.UnpackedFloat

theorem unpack_of_isPower {y : Float} {i : Nat} (power : IsPower y i) :
    ∃ m e positive, y.toModel.unpack = .finite .positive m e positive := by
  obtain ⟨s, sign, unpacked⟩ := unpack_of_reading power (Nat.two_pow_pos 52)
  cases s with
  | positive => exact ⟨_, _, _, unpacked⟩
  | negative => exact absurd (show (Sign.negative == Sign.negative) = false from sign) (by decide)

theorem reading_infinity_mul {x y : Float} {i : Nat} (power : IsPower y i) {s : Sign}
    (unpacked : x.toModel.unpack = .infinity s) : reading (x * y) = .infinite (s == .negative) := by
  obtain ⟨m, e, positive, unpacked'⟩ := unpack_of_isPower power
  have product : UnpackedFloat.mul Format.binary64 (.infinity s) (.finite .positive m e positive) =
      .infinity (s * .positive) := rfl
  rw [unpack_mul, unpacked, unpacked', product, pos_mul, reading_ofModel]
  cases s <;> decide +kernel

theorem reading_zero_mul {x y : Float} {i : Nat} (power : IsPower y i) {s : Sign}
    (unpacked : x.toModel.unpack = .zero s) : reading (x * y) = .finite ⟨s == .negative, 0, -1074⟩ := by
  obtain ⟨m, e, positive, unpacked'⟩ := unpack_of_isPower power
  have product : UnpackedFloat.mul Format.binary64 (.zero s) (.finite .positive m e positive) =
      .zero (s * .positive) := rfl
  rw [unpack_mul, unpacked, unpacked', product, pos_mul, reading_ofModel]
  cases s <;> decide +kernel

end special

/-- The product with a power of two is exact or out of the range of doubles. -/
theorem value?_mul_power {x y : Float} {i : Nat} (power : IsPower y i) {v : EReal}
    (known : (reading x).value? = some v) : ∃ w, (reading (x * y)).value? = some w ∧
      (w = v * ((2 ^ i : ℝ) : EReal) ∨ Beyond (v * ((2 ^ i : ℝ) : EReal)) w) := by
  have positive' : (0 : ℝ) < 2 ^ i := by positivity
  have read := reading_eq x
  cases unpacked : x.toModel.unpack with
  | notANumber => simp [read, unpacked, Reading.ofUnpacked, Reading.value?] at known
  | infinity s =>
    rw [reading_infinity_mul power unpacked]
    rw [read, unpacked] at known
    refine ⟨v, known, .inl ?_⟩
    cases s with
    | positive =>
      obtain rfl : ⊤ = v := Option.some.inj known
      exact (EReal.top_mul_coe_of_pos positive').symm
    | negative =>
      obtain rfl : ⊥ = v := Option.some.inj known
      exact (EReal.bot_mul_coe_of_pos positive').symm
  | zero s =>
    rw [reading_zero_mul power unpacked]
    rw [read, unpacked] at known
    obtain rfl : 0 = v := by
      rw [← Option.some.inj known]
      simp [Binary.value]
    exact ⟨0, by simp [Reading.value?, Binary.value], .inl (zero_mul _).symm⟩
  | finite s n d positive =>
    rw [unpacked] at read
    rw [read] at known
    obtain rfl := Option.some.inj known
    rw [← EReal.coe_mul]
    obtain ⟨m, e, product, canonical, k, same, exponent⟩ := reading_mul_power power read positive
    obtain ⟨value, beyond⟩ := beyond_of_digits canonical same exponent
    rw [product]
    by_cases outside : 972 ≤ e
    · rw [if_pos outside]
      exact ⟨_, rfl, .inr (beyond outside)⟩
    · rw [if_neg outside]
      exact ⟨_, rfl, .inl (by rw [value])⟩

namespace Amount

/-- Doubling is exact as long as the powers are doubles, or for a double out of the range of doubles. -/
theorem value?_doubled {a : Amount} {v : EReal} (known : a.value? = some v) {times : Nat}
    (inside : ∀ x, a = .decimal x → times < powerLimit) : ∃ product w, a.doubled? times = some product ∧
      product.value? = some w ∧ (w = v * ((2 ^ times : ℝ) : EReal) ∨
        (∃ x, a = .decimal x) ∧ Beyond (v * ((2 ^ times : ℝ) : EReal)) w) := by
  cases a with
  | whole n =>
    obtain rfl := Option.some.inj known
    refine ⟨_, _, rfl, rfl, .inl ?_⟩
    rw [← EReal.coe_mul]
    simp
  | decimal x =>
    have inside := inside x rfl
    obtain ⟨w, product, exact⟩ := value?_mul_power (isPower_ofNat inside) known
    exact ⟨.decimal (x * ofNat (2 ^ times)), w, if_pos inside, product,
      exact.imp_right fun beyond => ⟨⟨x, rfl⟩, beyond⟩⟩

end Amount

end Retouch.Number
