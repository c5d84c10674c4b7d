import Mathlib
import Retouch.Number.Binary

/-!
# What a double is read as

The bits of a double are read as an integer times a power of two. The operations on doubles are those of the
logical model: a float is unpacked, the operation is done on integers, and the result is rounded and packed. A
product with a power of two needs no rounding, as only zeros are shifted out.

## Main statements

* `reading_eq`: a double is read as what it is unpacked to.
* `reading_mul_power`: the product with a power of two is exact, as long as it is in the range of doubles.
* `isPower_ofNat`: the powers of two below the limit are doubles.
* `isInf_ofNat`: natural numbers in the range of doubles have a double.
-/
namespace Retouch.Number

open Float.Model Float.Model.UnpackedFloat

/-- What an unpacked float stands for. -/
def Reading.ofUnpacked : UnpackedFloat → Reading
  | .notANumber => .nan
  | .infinity sign => .infinite (sign == .negative)
  | .zero sign => .finite ⟨sign == .negative, 0, -1074⟩
  | .finite sign m e _ => .finite ⟨sign == .negative, m, e⟩

/-! ### Bits -/

theorem toNat_unpackExponent (b : BitVec 64) :
    (@unpackExponent Format.binary64 b).toNat = b.toNat / Nat.pow 2 52 % Nat.pow 2 11 := by
  unfold unpackExponent
  simp [BitVec.extractLsb_toNat, Nat.shiftRight_eq_div_pow]

theorem toNat_unpackMantissa (b : BitVec 64) :
    (@unpackMantissa Format.binary64 b).toNat = b.toNat % Nat.pow 2 52 := by
  unfold unpackMantissa
  simp [BitVec.extractLsb_toNat]

theorem ofBitVec_unpackSign (b : BitVec 64) :
    (Sign.ofBitVec (@unpackSign Format.binary64 b) == .negative) =
      decide (b.toNat / Nat.pow 2 63 % 2 = 1) := by
  have bit : (@unpackSign Format.binary64 b).toNat = b.toNat / Nat.pow 2 63 % 2 := by
    unfold unpackSign
    simp [BitVec.extractLsb_toNat, Nat.shiftRight_eq_div_pow]
  rw [← bit]
  generalize @unpackSign Format.binary64 b = sign
  revert sign
  decide

theorem toNat_implicit (m : BitVec 52) : (1#1 ++ m).toNat = 2 ^ 52 + m.toNat := by
  rw [BitVec.toNat_append, ← Nat.shiftLeft_add_eq_or_of_lt m.isLt]
  simp [Nat.shiftLeft_eq]

/-- A double is read as what it is unpacked to. -/
theorem reading_eq (x : Float) : reading x = .ofUnpacked x.toModel.unpack := by
  unfold reading Reading.ofBits Float.Model.unpack UnpackedFloat.unpack
  have sign := ofBitVec_unpackSign x.toModel.toBits.toBitVec
  have exponent := toNat_unpackExponent x.toModel.toBits.toBitVec
  have mantissa := toNat_unpackMantissa x.toModel.toBits.toBitVec
  have bits : x.toBits.toNat = x.toModel.toBits.toBitVec.toNat := rfl
  rw [bits, ← exponent, ← mantissa]
  dsimp only
  rw [← sign]
  clear sign exponent mantissa bits
  have top (e : BitVec 11) : e = -1#11 ↔ e.toNat = 2047 := by
    rw [← BitVec.toNat_inj]
    rfl
  have low (e : BitVec 11) : e = 0#11 ↔ e.toNat = 0 := by
    rw [← BitVec.toNat_inj]
    rfl
  have empty (m : BitVec 52) : m = 0#52 ↔ m.toNat = 0 := by
    rw [← BitVec.toNat_inj]
    rfl
  have bias : Format.binary64.exponentBias = 1023 := rfl
  simp only [top, low, empty]
  split
  · split <;> rfl
  · split
    · split
      · rename_i zero
        simp [Reading.ofUnpacked, zero]
      · rename_i zero nonzero
        simp only [Reading.ofUnpacked, zero, bias]
        rfl
    · simp only [Reading.ofUnpacked, bias]
      rw [toNat_implicit]
      simp only [Reading.finite.injEq, Binary.mk.injEq, true_and]
      exact ⟨rfl, by push_cast; ring⟩

/-! ### Packing -/

/-- Digits and an exponent as a finite double has them. -/
structure Canonical (m : Nat) (e : Int) : Prop where
  small : m < 2 ^ 53
  least : -1074 ≤ e
  full : 2 ^ 52 ≤ m ∨ e = -1074

/-- A float with such digits is packed without loss, unless it is too large. -/
theorem ofUnpacked_pack {s : Sign} {m : Nat} {e : Int} (canonical : Canonical m e) (positive : 0 < m) :
    Reading.ofUnpacked (UnpackedFloat.unpack Format.binary64
      (UnpackedFloat.pack Format.binary64 (.finite s m e positive))) =
      if 972 ≤ e then .infinite (s == .negative) else .finite ⟨s == .negative, m, e⟩ := by
  obtain ⟨small, least, full⟩ := canonical
  have bias : Format.binary64.exponentBias = 1023 := rfl
  have bits : Format.binary64.mantissaBits = 53 := rfl
  unfold UnpackedFloat.pack
  simp only [bias, bits]
  obtain ⟨b, eq⟩ : ∃ b : Nat, e + ((1023 : Nat) : Int) + ((52 : Nat) : Int) = b := ⟨(e + 1075).toNat, by omega⟩
  rw [eq, Int.toNat_natCast]
  by_cases large : 972 ≤ e
  · rw [if_pos (by omega), if_pos large]
    unfold packedInfinity UnpackedFloat.unpack
    simp only [unpackExponent_packComponents, unpackMantissa_packComponents, unpackSign_packComponents,
      Sign.ofBitVec_toBitVec]
    rfl
  · rw [if_neg (by omega), if_neg large]
    have exponent : (BitVec.ofNat 11 b).toNat = b := by
      rw [BitVec.toNat_ofNat, Nat.mod_eq_of_lt (by omega)]
    by_cases normal : 2 ^ 52 ≤ m
    · have log : m.log2 = 52 := (Nat.log2_eq_iff (by omega)).mpr ⟨normal, small⟩
      have top : BitVec.ofNat 11 b ≠ -1#11 := by
        rw [ne_eq, ← BitVec.toNat_inj, exponent]
        simp
        omega
      have low : BitVec.ofNat 11 b ≠ 0#11 := by
        rw [ne_eq, ← BitVec.toNat_inj, exponent]
        simp
        omega
      have mantissa : (1#1 ++ BitVec.ofNat 52 m).toNat = m := by
        rw [toNat_implicit, BitVec.toNat_ofNat]
        omega
      rw [if_pos (by omega)]
      unfold UnpackedFloat.unpack
      simp only [unpackExponent_packComponents, unpackMantissa_packComponents, unpackSign_packComponents,
        Sign.ofBitVec_toBitVec, top, low, if_false]
      simp only [Reading.ofUnpacked, mantissa, exponent, bias, Reading.finite.injEq, Binary.mk.injEq, true_and]
      push_cast
      omega
    · have log : m.log2 < 52 := (Nat.log2_lt (by omega)).mpr (by omega)
      have mantissa : (BitVec.ofNat 52 m).toNat = m := by
        rw [BitVec.toNat_ofNat, Nat.mod_eq_of_lt (by omega)]
      have filled : BitVec.ofNat 52 m ≠ 0#52 := by
        rw [ne_eq, ← BitVec.toNat_inj, mantissa]
        simp
        omega
      rw [if_neg (by omega)]
      unfold UnpackedFloat.unpack
      have top : (0#11) ≠ -1#11 := by decide
      simp only [unpackExponent_packComponents, unpackMantissa_packComponents, unpackSign_packComponents,
        Sign.ofBitVec_toBitVec, top, filled, if_false, if_true, dite_false]
      simp only [Reading.ofUnpacked, mantissa, bias, Reading.finite.injEq, Binary.mk.injEq, true_and]
      have tiny : e = -1074 := by omega
      rw [tiny]
      rfl

/-! ### Rounding without loss -/

theorem accuracy_exact (m : Nat) : ExtendedMantissa.ofMantissaAndAccuracy m .exact = ⟨m, false, false⟩ := rfl

/-- Shifting out zeros loses nothing. -/
theorem shiftRight_zeros (m k : Nat) :
    (⟨m * 2 ^ k, false, false⟩ : ExtendedMantissa) >>> k = ⟨m, false, false⟩ := by
  have each : ∀ k m : Nat,
      Nat.repeat ExtendedMantissa.shiftRightOne k ⟨m * 2 ^ k, false, false⟩ = ⟨m, false, false⟩ := by
    intro k
    induction k with
    | zero => intro m; simp [Nat.repeat]
    | succ k ih =>
      intro m
      have step := ih (m * 2)
      rw [Nat.mul_assoc, ← pow_succ'] at step
      rw [Nat.repeat, step]
      simp [ExtendedMantissa.shiftRightOne]
  exact each k m

/-- The exponent that a number has as a float. -/
def fit (m : Nat) (e : Int) : Int := max (m.log2 + 1 + e - 53) (-1074)

theorem targetExponent_eq (m : Nat) (e : Int) :
    Format.binary64.targetExponent (totalExponent m e) = fit m e := rfl

theorem shiftToTarget_zeros {m : Nat} {e : Int} {k : Nat} (fits : fit (m * 2 ^ k) e = e + k) :
    shiftToTargetExponent Format.binary64 (m * 2 ^ k) e .exact = (⟨m, false, false⟩, e + k) := by
  unfold shiftToTargetExponent shiftToExponent
  rw [targetExponent_eq, fits, accuracy_exact]
  have amount : (e + k - e).toNat = k := by omega
  simp only [amount, shiftRight_zeros]

theorem log2_mul_two_pow {m : Nat} (positive : 0 < m) (k : Nat) : (m * 2 ^ k).log2 = m.log2 + k := by
  have grown : m * 2 ^ k ≠ 0 := (Nat.mul_pos positive (Nat.two_pow_pos k)).ne'
  obtain ⟨low, high⟩ := (Nat.log2_eq_iff positive.ne').mp (rfl : m.log2 = m.log2)
  refine (Nat.log2_eq_iff grown).mpr ⟨?_, ?_⟩
  · rw [pow_add]
    exact Nat.mul_le_mul_right _ low
  · rw [Nat.add_right_comm, pow_add]
    exact Nat.mul_lt_mul_of_pos_right high (Nat.two_pow_pos k)

theorem roundWithAccuracy_zeros {s : Sign} {m : Nat} {e : Int} {k : Nat} (positive : 0 < m)
    (fits : fit (m * 2 ^ k) e = e + k) :
    roundWithAccuracy Format.binary64 s (m * 2 ^ k) e .exact = .finite s m (e + k) positive := by
  have again : fit (m * 2 ^ 0) (e + k) = e + k + (0 : Nat) := by
    rw [pow_zero, Nat.mul_one]
    unfold fit at *
    rw [log2_mul_two_pow positive] at fits
    push_cast at *
    omega
  have second := shiftToTarget_zeros again
  rw [pow_zero, Nat.mul_one] at second
  have rounded : (⟨m, false, false⟩ : ExtendedMantissa).roundedMantissa = m := rfl
  unfold roundWithAccuracy
  simp only [shiftToTarget_zeros fits, rounded, second]
  simp [positive.ne']

/-! ### Products with powers of two -/

theorem reading_ofModel (u : UnpackedFloat) : reading (.ofModel (Float.Model.pack u)) =
    .ofUnpacked (UnpackedFloat.unpack Format.binary64 (UnpackedFloat.pack Format.binary64 u)) := by
  rw [reading_eq]
  rfl

theorem canonical_of_reading {x : Float} {b : Binary} (read : reading x = .finite b) :
    Canonical b.mantissa b.exponent ∧ b.exponent ≤ 971 := by
  unfold reading Reading.ofBits at read
  dsimp only at read
  have fraction : x.toBits.toNat % Nat.pow 2 52 < 2 ^ 52 := Nat.mod_lt _ (by decide)
  have field : x.toBits.toNat / Nat.pow 2 52 % Nat.pow 2 11 < 2 ^ 11 := Nat.mod_lt _ (by decide)
  generalize x.toBits.toNat % Nat.pow 2 52 = m at *
  generalize x.toBits.toNat / Nat.pow 2 52 % Nat.pow 2 11 = e at *
  split at read
  · split at read <;> cases read
  · split at read
    · cases read
      dsimp only
      exact ⟨⟨by omega, by omega, .inr rfl⟩, by omega⟩
    · cases read
      dsimp only
      have power : Nat.pow 2 52 = 2 ^ 52 := rfl
      rw [power]
      exact ⟨⟨by omega, by omega, .inl (by omega)⟩, by omega⟩

/-- A finite float that is not zero, as it is unpacked. -/
theorem unpack_of_reading {x : Float} {b : Binary} (read : reading x = .finite b) (positive : 0 < b.mantissa) :
    ∃ s, (s == Sign.negative) = b.negative ∧
      x.toModel.unpack = .finite s b.mantissa b.exponent positive := by
  rw [reading_eq] at read
  cases unpacked : x.toModel.unpack with
  | notANumber => simp [unpacked, Reading.ofUnpacked] at read
  | infinity s => simp [unpacked, Reading.ofUnpacked] at read
  | zero s =>
    simp only [unpacked, Reading.ofUnpacked, Reading.finite.injEq] at read
    subst read
    cases positive
  | finite s m e p =>
    simp only [unpacked, Reading.ofUnpacked, Reading.finite.injEq] at read
    subst read
    exact ⟨s, rfl, rfl⟩

/-- The float of a power of two. -/
def IsPower (y : Float) (i : Nat) : Prop := reading y = .finite ⟨false, 2 ^ 52, i - 52⟩

theorem unpack_mul (x y : Float) : (x * y) =
    .ofModel (Float.Model.pack (UnpackedFloat.mul Format.binary64 x.toModel.unpack y.toModel.unpack)) := rfl

theorem pos_mul (s : Sign) : s * Sign.positive = s := by cases s <;> rfl

/-- The product with a power of two is exact, unless it is too large. -/
theorem reading_mul_power {x y : Float} {i : Nat} (power : IsPower y i) {b : Binary} (read : reading x = .finite b)
    (positive : 0 < b.mantissa) : ∃ m e, reading (x * y) =
      (if 972 ≤ e then .infinite b.negative else .finite ⟨b.negative, m, e⟩) ∧
        Canonical m e ∧ ∃ k : Nat, m * 2 ^ k = b.mantissa * 2 ^ 52 ∧ e = b.exponent + i - 52 + k := by
  obtain ⟨s, sign, unpacked⟩ := unpack_of_reading read positive
  obtain ⟨s', sign', unpacked'⟩ := unpack_of_reading power (Nat.two_pow_pos 52)
  have plain : s' = .positive := by
    cases s' with
    | positive => rfl
    | negative => exact absurd (show (Sign.negative == Sign.negative) = false from sign') (by decide)
  subst plain
  obtain ⟨⟨small, least, full⟩, -⟩ := canonical_of_reading read
  have log : b.mantissa.log2 ≤ 52 := Nat.lt_succ_iff.mp ((Nat.log2_lt positive.ne').mpr small)
  -- All bits that are shifted out come from the power of two.
  obtain ⟨k, shift⟩ : ∃ k : Nat, fit (b.mantissa * 2 ^ 52) (b.exponent + (i - 52)) = b.exponent + (i - 52) + k := by
    refine ⟨(fit (b.mantissa * 2 ^ 52) (b.exponent + (i - 52)) - (b.exponent + (i - 52))).toNat, ?_⟩
    unfold fit
    rw [log2_mul_two_pow positive]
    omega
  have most : k ≤ 52 := by
    unfold fit at shift
    rw [log2_mul_two_pow positive] at shift
    omega
  have split : b.mantissa * 2 ^ 52 = b.mantissa * 2 ^ (52 - k) * 2 ^ k := by
    rw [Nat.mul_assoc, ← pow_add, Nat.sub_add_cancel most]
  have positive' : 0 < b.mantissa * 2 ^ (52 - k) := Nat.mul_pos positive (Nat.two_pow_pos _)
  have rounded := roundWithAccuracy_zeros (s := s) positive' (by rw [← split]; exact shift)
  have canonical : Canonical (b.mantissa * 2 ^ (52 - k)) (b.exponent + (i - 52) + k) := by
    have log' := log2_mul_two_pow positive (52 - k)
    unfold fit at shift
    rw [log2_mul_two_pow positive] at shift
    refine ⟨(Nat.log2_lt positive'.ne').mp (by omega), by omega, ?_⟩
    by_cases tiny : b.exponent + (i - 52) + k = -1074
    · exact .inr tiny
    · exact .inl ((Nat.le_log2 positive'.ne').mp (by omega))
  refine ⟨b.mantissa * 2 ^ (52 - k), b.exponent + (i - 52) + k, ?_, canonical, k, split.symm, by omega⟩
  rw [unpack_mul, unpacked, unpacked']
  simp only [UnpackedFloat.mul, pos_mul]
  rw [split, rounded, reading_ofModel, ofUnpacked_pack canonical positive', sign]

/-! ### Natural numbers as doubles -/

theorem fit_natural {n : Nat} (small : n < 2 ^ 53) (positive : 0 < n) : fit n 0 = n.log2 - 52 := by
  have log : n.log2 ≤ 52 := Nat.lt_succ_iff.mp ((Nat.log2_lt positive.ne').mpr small)
  unfold fit
  omega

theorem ofNat_small {n : Nat} (small : n < 2 ^ 53) (positive : 0 < n) :
    UnpackedFloat.ofNat Format.binary64 n = .finite .positive (n * 2 ^ (52 - n.log2)) (n.log2 - 52)
      (Nat.mul_pos positive (Nat.two_pow_pos _)) := by
  have log : n.log2 ≤ 52 := Nat.lt_succ_iff.mp ((Nat.log2_lt positive.ne').mpr small)
  have more : compare (n : Int) 0 = .gt := by
    rw [compare_gt_iff_gt]
    omega
  have shift : ((0 : Int) - (n.log2 - 52)).toNat = 52 - n.log2 := by omega
  have back : (0 : Int) - (52 - n.log2 : Nat) = n.log2 - 52 := by omega
  have positive' : 0 < n * 2 ^ (52 - n.log2) := Nat.mul_pos positive (Nat.two_pow_pos _)
  have fits : fit (n * 2 ^ (52 - n.log2) * 2 ^ 0) (n.log2 - 52) = n.log2 - 52 + (0 : Nat) := by
    unfold fit
    rw [pow_zero, Nat.mul_one, log2_mul_two_pow positive]
    omega
  have rounded := roundWithAccuracy_zeros (s := .positive) positive' fits
  simp only [pow_zero, Nat.mul_one] at rounded
  unfold UnpackedFloat.ofNat UnpackedFloat.ofInt UnpackedFloat.normalize
  rw [more]
  simp only [Int.toNat_natCast]
  unfold UnpackedFloat.round decreaseExponent
  simp only [targetExponent_eq, fit_natural small positive, shift, back, Nat.shiftLeft_eq]
  rw [rounded]
  simp

theorem canonical_natural {n : Nat} (small : n < 2 ^ 53) (positive : 0 < n) :
    Canonical (n * 2 ^ (52 - n.log2)) (n.log2 - 52) := by
  have log : n.log2 ≤ 52 := Nat.lt_succ_iff.mp ((Nat.log2_lt positive.ne').mpr small)
  have positive' : 0 < n * 2 ^ (52 - n.log2) := Nat.mul_pos positive (Nat.two_pow_pos _)
  have log' := log2_mul_two_pow positive (52 - n.log2)
  refine ⟨(Nat.log2_lt positive'.ne').mp (by omega), by omega, ?_⟩
  exact .inl ((Nat.le_log2 positive'.ne').mp (by omega))

theorem isPower_one : IsPower (Float.ofBits 0x3FF0000000000000) 0 := by
  unfold IsPower
  decide +kernel

theorem ofNat_eq_fast {n : Nat} (small : n < 2 ^ 53) :
    ofNat n = n.toUInt64.toFloat * Float.ofBits 0x3FF0000000000000 := by
  unfold ofNat Float.ofScientific
  rw [dif_pos ⟨small, by decide⟩]
  rfl

theorem ofNat_eq_slow {n : Nat} (large : 2 ^ 53 ≤ n) : ofNat n = .ofModel (Float.Model.pack
    (roundWithAccuracy Format.binary64 .positive (n * 2 ^ 53) (-53) .exact)) := by
  unfold ofNat Float.ofScientific
  rw [dif_neg (by omega)]
  have some_n : n ≠ 0 := by omega
  simp only [Float.Model.ofScientific, UnpackedFloat.ofScientific, some_n]
  simp [UnpackedFloat.mul, Nat.shiftLeft_eq]
  rw [if_neg (by omega)]
  rfl

theorem reading_small {n : Nat} (small : n < 2 ^ 53) (positive : 0 < n) :
    reading n.toUInt64.toFloat = .finite ⟨false, n * 2 ^ (52 - n.log2), n.log2 - 52⟩ := by
  have log : n.log2 ≤ 52 := Nat.lt_succ_iff.mp ((Nat.log2_lt positive.ne').mpr small)
  have kept : n.toUInt64.toNat = n := by
    rw [Nat.toUInt64_eq, UInt64.toNat_ofNat']
    omega
  have float : n.toUInt64.toFloat = .ofModel (Float.Model.pack (UnpackedFloat.ofNat Format.binary64 n)) := by
    have unfolded : n.toUInt64.toFloat = .ofModel (Float.Model.pack
      (UnpackedFloat.ofNat Format.binary64 n.toUInt64.toNat)) := rfl
    rw [unfolded, kept]
  rw [float, ofNat_small small positive, reading_ofModel,
    ofUnpacked_pack (canonical_natural small positive), if_neg (by omega)]
  rfl

/-- The powers of two that are doubles. -/
theorem isPower_ofNat {i : Nat} (inside : i < 1024) : IsPower (ofNat (2 ^ i)) i := by
  unfold IsPower
  by_cases small : (2 : Nat) ^ i < 2 ^ 53
  · have less : i < 53 := (Nat.pow_lt_pow_iff_right (by decide)).mp small
    have log : (2 ^ i).log2 = i := Nat.log2_two_pow
    have read := reading_small small (Nat.two_pow_pos i)
    rw [log, ← pow_add, Nat.add_sub_cancel' (by omega)] at read
    obtain ⟨m, e, product, ⟨below, least, full⟩, k, same, exponent⟩ :=
      reading_mul_power isPower_one read (Nat.two_pow_pos 52)
    dsimp only at same exponent
    rw [← pow_add] at same
    have full : 2 ^ 52 ≤ m := full.resolve_right (by omega)
    -- A power of two between these bounds is the smallest of them.
    have k_eq : k = 52 := by
      have low : 2 ^ (52 + k) ≤ 2 ^ (52 + 52) := by
        rw [pow_add, ← same]
        exact Nat.mul_le_mul_right _ full
      have high : 2 ^ (52 + 52) < 2 ^ (53 + k) := by
        rw [← same, pow_add]
        exact Nat.mul_lt_mul_of_pos_right below (Nat.two_pow_pos k)
      have low := (Nat.pow_le_pow_iff_right (by decide)).mp low
      have high := (Nat.pow_lt_pow_iff_right (by decide)).mp high
      omega
    subst k_eq
    have m_eq : m = 2 ^ 52 := by
      rw [pow_add] at same
      exact Nat.eq_of_mul_eq_mul_right (Nat.two_pow_pos 52) same
    rw [ofNat_eq_fast small, product, if_neg (by omega), m_eq]
    simp only [Reading.finite.injEq, Binary.mk.injEq, true_and]
    omega
  · have large : 53 ≤ i := by
      by_contra less
      exact small (Nat.pow_lt_pow_right (by decide) (by omega))
    have split : (2 : Nat) ^ i * 2 ^ 53 = 2 ^ 52 * 2 ^ (i + 1) := by
      rw [← pow_add, ← pow_add]
      congr 1
      omega
    have fits : fit (2 ^ 52 * 2 ^ (i + 1)) (-53) = -53 + (i + 1 : Nat) := by
      unfold fit
      rw [← pow_add, Nat.log2_two_pow]
      omega
    have canonical : Canonical (2 ^ 52) (-53 + (i + 1 : Nat)) := ⟨by decide, by omega, .inl (Nat.le_refl _)⟩
    rw [ofNat_eq_slow (Nat.le_of_not_lt small), split, roundWithAccuracy_zeros (Nat.two_pow_pos 52) fits,
      reading_ofModel, ofUnpacked_pack canonical, if_neg (by omega)]
    simp only [Reading.finite.injEq, Binary.mk.injEq, true_and]
    exact ⟨rfl, by omega⟩

/-! ### The range of doubles -/

theorem isInf_iff (x : Float) : x.isInf = true ↔ ∃ negative, reading x = .infinite negative := by
  have unfolded : x.isInf = x.toModel.unpack.isInf := rfl
  rw [unfolded, reading_eq]
  cases x.toModel.unpack with
  | notANumber => simp [UnpackedFloat.isInf, Reading.ofUnpacked]
  | infinity s => simp [UnpackedFloat.isInf, Reading.ofUnpacked]
  | zero s => simp [UnpackedFloat.isInf, Reading.ofUnpacked]
  | finite s m e p => simp [UnpackedFloat.isInf, Reading.ofUnpacked]

theorem mantissa_shiftRight (em : ExtendedMantissa) (k : Nat) : (em >>> k).mantissa = em.mantissa / 2 ^ k := by
  have each : ∀ k, (Nat.repeat ExtendedMantissa.shiftRightOne k em).mantissa = em.mantissa / 2 ^ k := by
    intro k
    induction k with
    | zero => simp [Nat.repeat]
    | succ k ih =>
      rw [Nat.repeat, pow_succ, ← Nat.div_div_eq_div_mul, ← ih]
      rfl
  exact each k

theorem roundedMantissa_le (em : ExtendedMantissa) : em.roundedMantissa ≤ em.mantissa + 1 := by
  obtain ⟨m, round, sticky⟩ := em
  cases round <;> cases sticky <;>
    simp [ExtendedMantissa.roundedMantissa, ExtendedMantissa.accuracy, Accuracy.roundToNearestEven]
  omega

theorem isInf_pack {s : Sign} {m : Nat} {e : Int} (positive : 0 < m) (small : e ≤ 971) :
    (UnpackedFloat.unpack Format.binary64
      (UnpackedFloat.pack Format.binary64 (.finite s m e positive))).isInf = false := by
  have bias : Format.binary64.exponentBias = 1023 := rfl
  have bits : Format.binary64.mantissaBits = 53 := rfl
  have finite : ∀ (exponent : BitVec 11) (mantissa : BitVec 52), exponent ≠ -1#11 →
      (UnpackedFloat.unpack Format.binary64
        (packComponents Format.binary64 s exponent mantissa)).isInf = false := by
    intro exponent mantissa top
    unfold UnpackedFloat.unpack
    simp only [unpackExponent_packComponents, unpackMantissa_packComponents, top, if_false]
    split
    · split <;> rfl
    · rfl
  unfold UnpackedFloat.pack
  simp only [bias, bits]
  rw [if_neg (by omega)]
  split
  · refine finite _ _ ?_
    rw [ne_eq, ← BitVec.toNat_inj, BitVec.toNat_ofNat]
    simp
    omega
  · exact finite _ _ (by decide)

theorem isInf_ofNat {n : Nat} (small : n.log2 < 1023) : (ofNat n).isInf = false := by
  by_cases zero : n = 0
  · subst zero
    decide +kernel
  have positive : 0 < n := Nat.pos_of_ne_zero zero
  by_cases few : n < 2 ^ 53
  · have log : n.log2 ≤ 52 := Nat.lt_succ_iff.mp ((Nat.log2_lt zero).mpr few)
    have positive' : 0 < n * 2 ^ (52 - n.log2) := Nat.mul_pos positive (Nat.two_pow_pos _)
    obtain ⟨m, e, product, ⟨below, least, full⟩, k, same, exponent⟩ :=
      reading_mul_power isPower_one (reading_small few positive) positive'
    dsimp only at same exponent
    have little : e ≤ 971 := by
      rcases full with full | tiny
      · have some_m : 0 < m := Nat.lt_of_lt_of_le (Nat.two_pow_pos 52) full
        have logs := congrArg Nat.log2 same
        rw [log2_mul_two_pow some_m, log2_mul_two_pow positive', log2_mul_two_pow positive] at logs
        have log_m := (Nat.le_log2 some_m.ne').mpr full
        omega
      · omega
    rw [ofNat_eq_fast few, ← Bool.not_eq_true, isInf_iff, product, if_neg (by omega)]
    rintro ⟨_, same⟩
    cases same
  · have log : 53 ≤ n.log2 := (Nat.le_log2 zero).mpr (Nat.le_of_not_lt few)
    have shift : fit (n * 2 ^ 53) (-53) = -53 + (n.log2 + 1 : Nat) := by
      unfold fit
      rw [log2_mul_two_pow positive]
      omega
    -- What is left of the digits has at most one bit more after rounding.
    have first : shiftToTargetExponent Format.binary64 (n * 2 ^ 53) (-53) .exact =
        ((⟨n * 2 ^ 53, false, false⟩ : ExtendedMantissa) >>> (n.log2 + 1), (-53 + (n.log2 + 1 : Nat) : Int)) := by
      unfold shiftToTargetExponent shiftToExponent
      rw [targetExponent_eq, shift, accuracy_exact]
      have amount : (-53 + ((n.log2 + 1 : Nat) : Int) - -53).toNat = n.log2 + 1 := by omega
      simp only [amount]
    have digits : n * 2 ^ 53 / 2 ^ (n.log2 + 1) < 2 ^ 53 := by
      rw [Nat.div_lt_iff_lt_mul (Nat.two_pow_pos _), Nat.mul_comm]
      exact Nat.mul_lt_mul_of_pos_left (Nat.lt_log2_self) (Nat.two_pow_pos 53)
    generalize held : (⟨n * 2 ^ 53, false, false⟩ : ExtendedMantissa) >>> (n.log2 + 1) = em at first
    have rounded : em.roundedMantissa ≤ 2 ^ 53 := by
      refine Nat.le_trans (roundedMantissa_le em) ?_
      rw [← held, mantissa_shiftRight]
      exact digits
    have log_rounded : em.roundedMantissa.log2 ≤ 53 := by
      by_cases none : em.roundedMantissa = 0
      · simp [none]
      · have log_lt := (Nat.log2_lt none).mpr (Nat.lt_of_le_of_lt rounded (by decide : (2 : Nat) ^ 53 < 2 ^ 54))
        omega
    rw [ofNat_eq_slow (Nat.le_of_not_lt few)]
    have unfolded (u : UnpackedFloat) : (Float.ofModel (Float.Model.pack u)).isInf =
        (UnpackedFloat.unpack Format.binary64 (UnpackedFloat.pack Format.binary64 u)).isInf := rfl
    rw [unfolded]
    unfold roundWithAccuracy
    rw [first]
    dsimp only
    split
    · rfl
    · refine isInf_pack _ ?_
      unfold shiftToTargetExponent shiftToExponent
      rw [targetExponent_eq]
      unfold fit
      dsimp only
      omega

end Retouch.Number
