import Retouch.Proofs.Number.Nearest
import Retouch.Proofs.Number.Known

/-!
# Arithmetic with doubles

What sums, products, quotients and numerals come to as real numbers: a double nearest to the exact result, or infinite
if that is too large. Comparisons are those of the real numbers.

## Main statements

* `Denotes.lt_iff`, `Denotes.le_iff`: comparisons are those of the real numbers.
* `Computes.denotes_iff`: which results are finite.
* `computes_add`, `computes_sub`, `computes_mul` and `computes_div`: sums, differences, products and quotients are
  rounded once.
* `computes_ofDecimal`: the double of a numeral with few decimals is nearest to what the numeral says.
-/
namespace Retouch.Number

variable {x y : Float} {r s v : ℝ}

/-- The double is finite and stands for the number. -/
def Denotes (x : Float) (r : ℝ) : Prop := ∃ b, reading x = .finite b ∧ b.value = r

/-- The double is nearest to the number, or infinite if the nearest one is too large. -/
def Computes (x : Float) (v : ℝ) : Prop :=
  ∃ negative n d, Canonical n d ∧ Nearest (Binary.value ⟨negative, n, d⟩) v ∧
    reading x = if 972 ≤ d then .infinite negative else .finite ⟨negative, n, d⟩

open Float.Model Float.Model.UnpackedFloat

@[simp] theorem positive_beq : (Sign.positive == Sign.negative) = false := by decide

@[simp] theorem negative_beq : (Sign.negative == Sign.negative) = true := by decide

/-- How a double that stands for a number is unpacked: as a zero, or as digits with a sign. -/
inductive Unpacked : UnpackedFloat → ℝ → Prop
  | zero (s : Sign) : Unpacked (.zero s) 0
  | finite (s : Sign) (m : Nat) (e : Int) (positive : 0 < m) (canonical : Canonical m e) (most : e ≤ 971) :
    Unpacked (.finite s m e positive) (Binary.value ⟨s == .negative, m, e⟩)

/-- Canonical digits of the same size are the same. -/
theorem Canonical.eq_of_digits {m n : Nat} {d e : Int} (canonical : Canonical m d) (canonical' : Canonical n e)
    (same : (m : ℝ) * 2 ^ d = n * 2 ^ e) : m = n ∧ d = e := by
  have below := mt (canonical.lt_iff canonical').mpr same.not_lt
  have above := mt (canonical'.lt_iff canonical).mpr same.not_gt
  omega

/-- The reading of a number with the other sign. -/
def Reading.neg : Reading → Reading
  | .nan => .nan
  | .infinite negative => .infinite !negative
  | .finite b => .finite { b with negative := !b.negative }

theorem reading_neg (x : Float) : reading (-x) = (reading x).neg := by
  have opposite : -x = .ofModel (Float.Model.pack x.toModel.unpack.neg) := rfl
  have sign : ∀ s : Sign, ((-s) == Sign.negative) = !(s == .negative) := by
    intro s
    cases s <;> decide
  rw [opposite, reading_eq x]
  cases unpacked : x.toModel.unpack with
  | notANumber => decide +kernel
  | infinity s => cases s <;> decide +kernel
  | zero s =>
    have zero : (UnpackedFloat.zero s).neg = .zero (-s) := rfl
    rw [zero, reading_zero, sign]
    rfl
  | finite s m e positive =>
    obtain ⟨canonical, most⟩ := canonical_of_unpack unpacked
    have digits : (UnpackedFloat.finite s m e positive).neg = .finite (-s) m e positive := rfl
    rw [digits, reading_ofModel, ofUnpacked_pack canonical positive, if_neg (by omega), sign]
    rfl

namespace Denotes

theorem unique (first : Denotes x r) (second : Denotes x s) : r = s := by
  obtain ⟨b, read, rfl⟩ := first
  obtain ⟨c, read', rfl⟩ := second
  rw [read] at read'
  cases read'
  rfl

theorem isDouble (denotes : Denotes x r) : IsDouble r := by
  obtain ⟨b, read, rfl⟩ := denotes
  exact ⟨b, (canonical_of_reading read).1, rfl⟩

theorem value? (denotes : Denotes x r) : (reading x).value? = some (r : EReal) := by
  obtain ⟨b, read, rfl⟩ := denotes
  rw [read]
  rfl

/-- A double is nearest to what it stands for. -/
theorem computes (denotes : Denotes x r) : Computes x r := by
  obtain ⟨⟨negative, m, e⟩, read, rfl⟩ := denotes
  obtain ⟨canonical, most⟩ := canonical_of_reading read
  refine ⟨negative, m, e, canonical, ⟨⟨_, canonical, rfl⟩, fun d _ => by simp⟩, ?_⟩
  rw [if_neg (show ¬972 ≤ e by dsimp only at most; omega), read]

theorem abs_le_top (denotes : Denotes x r) : |r| ≤ 2 ^ 1024 - 2 ^ 971 := by
  obtain ⟨⟨negative, m, e⟩, read, rfl⟩ := denotes
  obtain ⟨⟨small, -, -⟩, most⟩ := canonical_of_reading read
  dsimp only at small most
  have few : (m : ℝ) ≤ 2 ^ 53 - 1 := by
    have : (m : ℝ) + 1 ≤ 2 ^ 53 := by exact_mod_cast small
    linarith
  rw [abs_value]
  calc (m : ℝ) * 2 ^ e ≤ (2 ^ 53 - 1) * 2 ^ (971 : Int) := by
        refine mul_le_mul few ?_ (by positivity) (by norm_num)
        exact zpow_le_zpow_right₀ (by norm_num) most
    _ = 2 ^ 1024 - 2 ^ 971 := by
        rw [show (971 : Int) = ((971 : Nat) : Int) from rfl, zpow_natCast, sub_mul, ← pow_add, one_mul]

/-- Finite doubles end well below the first power of two that is none. -/
theorem abs_le (denotes : Denotes x r) : |r| ≤ 2 ^ 1024 - 1 :=
  denotes.abs_le_top.trans (sub_le_sub_left (one_le_pow₀ (by norm_num)) _)

theorem lt_iff (left : Denotes x r) (right : Denotes y s) : x < y ↔ r < s := by
  rw [lt_iff_value left.value? right.value?, EReal.coe_lt_coe_iff]

theorem unpacked (denotes : Denotes x r) : Unpacked x.toModel.unpack r := by
  obtain ⟨b, read, rfl⟩ := denotes
  have canonical := canonical_of_reading read
  rw [reading_eq] at read
  cases shape : x.toModel.unpack with
  | notANumber => simp [shape, Reading.ofUnpacked] at read
  | infinity s => simp [shape, Reading.ofUnpacked] at read
  | zero s =>
    simp only [shape, Reading.ofUnpacked, Reading.finite.injEq] at read
    subst read
    simpa [Binary.value] using Unpacked.zero s
  | finite s m e positive =>
    simp only [shape, Reading.ofUnpacked, Reading.finite.injEq] at read
    subst read
    exact .finite s m e positive canonical.1 canonical.2

theorem neg (denotes : Denotes x r) : Denotes (-x) (-r) := by
  obtain ⟨b, read, rfl⟩ := denotes
  exact ⟨{ b with negative := !b.negative }, by rw [reading_neg, read]; rfl, value_not b⟩

/-- Doubles that stand for the same number other than zero are unpacked alike. -/
theorem unpack_eq (left : Denotes x r) (right : Denotes y r) (nonzero : r ≠ 0) :
    x.toModel.unpack = y.toModel.unpack := by
  have first := left.unpacked
  have second := right.unpacked
  generalize x.toModel.unpack = u at *
  generalize y.toModel.unpack = w at *
  cases first with
  | zero => exact absurd rfl nonzero
  | finite a m d positive canonical =>
    generalize same : Binary.value ⟨a == .negative, m, d⟩ = r at second nonzero
    cases second with
    | zero => exact absurd rfl nonzero
    | finite b n e positive' canonical' =>
      have above := digits_pos positive d
      have above' := digits_pos positive' e
      cases a <;> cases b <;> simp only [positive_beq, negative_beq, value_positive, value_negative] at same
      · obtain ⟨rfl, rfl⟩ := canonical.eq_of_digits canonical' (neg_injective same)
        rfl
      · linarith
      · linarith
      · obtain ⟨rfl, rfl⟩ := canonical.eq_of_digits canonical' same
        rfl

theorem div_eq (left : Denotes x r) (right : Denotes y r) (nonzero : r ≠ 0) (z : Float) : x / z = y / z := by
  have quotient (x : Float) : x / z = .ofModel (Float.Model.pack
    (UnpackedFloat.div Format.binary64 x.toModel.unpack z.toModel.unpack)) := rfl
  rw [quotient, quotient, left.unpack_eq right nonzero]

theorem le_iff (left : Denotes x r) (right : Denotes y s) : x ≤ y ↔ r ≤ s := by
  rw [le_iff_value left.value? right.value?, EReal.coe_le_coe_iff]

theorem beq_iff (left : Denotes x r) (right : Denotes y s) : (x == y) = true ↔ r = s := by
  rw [beq_iff_value left.value? right.value?, EReal.coe_eq_coe_iff]

end Denotes

/-! ### Rounded results -/

theorem value_signed (negative : Bool) (m : Nat) (e : Int) :
    Binary.value ⟨negative, m, e⟩ = (if negative then -1 else 1) * (m * 2 ^ e) := by
  cases negative with
  | false => rw [value_positive]; simp
  | true => rw [value_negative]; simp

/-- A rounded size with a sign is nearest to the exact size with the sign. -/
theorem computes_rounded (s : Sign) {m : Nat} {e : Int} {accuracy : Accuracy} {size : ℝ}
    (describes : Describes (.ofMantissaAndAccuracy m accuracy) size) (low : e ≤ fit m e) :
    Computes (.ofModel (Float.Model.pack (roundWithAccuracy Format.binary64 s m e accuracy)))
      ((if s == .negative then -1 else 1) * (size * 2 ^ e)) := by
  obtain ⟨n, d, canonical, nearest, read⟩ := reading_rounded s describes low
  refine ⟨_, n, d, canonical, ?_, read⟩
  rw [value_signed]
  cases s with
  | positive => simpa using nearest
  | negative => simpa using nearest.neg

theorem computes_zero (s : Sign) : Computes (.ofModel (Float.Model.pack (.zero s))) 0 := by
  refine ⟨s == .negative, 0, -1074, canonical_zero, ?_, ?_⟩
  · have zero : Binary.value ⟨s == .negative, 0, -1074⟩ = 0 := by simp [Binary.value]
    rw [zero]
    exact ⟨.zero, fun d _ => by simp⟩
  · rw [reading_zero, if_neg (by decide)]

namespace Computes

/-- What is not too large is finite. -/
theorem denotes_of_lt (computes : Computes x v) (inside : ∀ r, Nearest r v → |r| < 2 ^ 1024) :
    ∃ r, Denotes x r ∧ Nearest r v := by
  obtain ⟨negative, n, d, canonical, nearest, read⟩ := computes
  have small := inside _ nearest
  have within : ¬972 ≤ d := by
    intro outside
    rw [abs_value] at small
    exact absurd (canonical.limit_le outside) (not_le.mpr small)
  rw [if_neg within] at read
  exact ⟨_, ⟨_, read, rfl⟩, nearest⟩

/-- A result is finite if it is at most the largest power of two that is a double. -/
theorem denotes (computes : Computes x v) (small : |v| ≤ 2 ^ 1023) : ∃ r, Denotes x r ∧ Nearest r v := by
  refine computes.denotes_of_lt fun r nearest => ?_
  exact (nearest.abs_le_power small).trans_lt (pow_lt_pow_right₀ (by norm_num) (by norm_num))

/-- A result within a power of two is finite, and off by half of the distance between the doubles of that size at
most. -/
theorem within (computes : Computes x v) {k : Int} (least : -1021 ≤ k) (most : k ≤ 1023) (bound : |v| ≤ 2 ^ k) :
    ∃ r, Denotes x r ∧ Nearest r v ∧ |r - v| ≤ 2 ^ (k - 54) := by
  have large : (2 : ℝ) ^ k ≤ 2 ^ 1023 := by
    calc (2 : ℝ) ^ k ≤ 2 ^ (1023 : Int) := zpow_le_zpow_right₀ (by norm_num) most
      _ = 2 ^ 1023 := zpow_natCast 2 1023
  obtain ⟨r, denotes, nearest⟩ := computes.denotes (bound.trans large)
  exact ⟨r, denotes, nearest, nearest.within least bound⟩

/-- A result that is not finite is infinite on the side of the exact one. -/
theorem finite_or (computes : Computes x v) : (∃ r, Denotes x r ∧ Nearest r v) ∨
    (reading x = .infinite false ∧ 2 ^ 1023 < v) ∨ reading x = .infinite true ∧ v < -2 ^ 1023 := by
  by_cases small : |v| ≤ 2 ^ 1023
  · exact .inl (computes.denotes small)
  obtain ⟨negative, n, d, canonical, nearest, read⟩ := computes
  by_cases outside : 972 ≤ d
  · rw [if_pos outside] at read
    have positive : (0 : ℝ) < n * 2 ^ d := lt_of_lt_of_le (by positivity) (canonical.limit_le outside)
    have power : (0 : ℝ) < 2 ^ 1023 := by positivity
    generalize (2 : ℝ) ^ 1023 = limit at *
    -- Rounding does not pass zero, so the sign is that of the exact result.
    rcases lt_or_ge v 0 with below | above
    · have side := nearest.le_of_le .zero below.le
      rw [abs_of_neg below] at small
      cases negative with
      | false => rw [value_positive] at side; exact absurd side (not_le.mpr positive)
      | true => exact .inr (.inr ⟨read, by linarith⟩)
    · have side := nearest.le_of_ge .zero above
      rw [abs_of_nonneg above] at small
      cases negative with
      | false => exact .inr (.inl ⟨read, not_le.mp small⟩)
      | true => rw [value_negative] at side; linarith
  · rw [if_neg outside] at read
    exact .inl ⟨_, ⟨_, read, rfl⟩, nearest⟩

/-- Rounding does not lead past a double, be it infinite. -/
theorem le_of_le (computes : Computes x v) {w : EReal} (value : (reading y).value? = some w) (most : (v : EReal) ≤ w) :
    x ≤ y := by
  obtain ⟨negative, n, d, canonical, nearest, read⟩ := computes
  have rounded : (reading x).value? = some (if 972 ≤ d then if negative then ⊥ else ⊤
      else (Binary.value ⟨negative, n, d⟩ : EReal)) := by
    rw [read]
    split <;> rfl
  refine (le_iff_value rounded value).mpr ?_
  cases shown : reading y with
  | nan =>
    rw [shown] at value
    cases value
  | infinite below =>
    rw [shown] at value
    cases below with
    | true =>
      obtain rfl : ⊥ = w := Option.some.inj value
      exact absurd (le_bot_iff.mp most) (EReal.coe_ne_bot v)
    | false =>
      obtain rfl : ⊤ = w := Option.some.inj value
      exact le_top
  | finite b =>
    have denotes : Denotes y b.value := ⟨b, shown, rfl⟩
    obtain rfl : (b.value : EReal) = w := Option.some.inj (denotes.value?.symm.trans value)
    have side := nearest.le_of_le denotes.isDouble (EReal.coe_le_coe_iff.mp most)
    split
    next outside =>
      cases negative with
      | true => exact bot_le
      | false =>
        rw [value_positive] at side
        have top := (le_abs_self _).trans denotes.abs_le
        exact absurd ((canonical.limit_le outside).trans (side.trans top)) (by norm_num)
    next => exact EReal.coe_le_coe_iff.mpr side

/-- A result is finite just if it is below the number halfway between the largest double and the power of two that comes
next, which is no result itself. -/
theorem denotes_iff (computes : Computes x v) (between : |v| ≠ 2 ^ 1024 - 2 ^ 970) :
    (∃ r, Denotes x r) ↔ |v| < 2 ^ 1024 - 2 ^ 970 := by
  have half : (2 : ℝ) ^ 971 = 2 * 2 ^ 970 := pow_succ' 2 970
  have unit : (0 : ℝ) < 2 ^ 970 := by positivity
  by_cases finite : ∃ r, Denotes x r ∧ Nearest r v
  · obtain ⟨r, denotes, nearest⟩ := finite
    have most := denotes.abs_le_top
    have next := nearest.abs.least _ (isDouble_power 1024)
    refine iff_of_true ⟨r, denotes⟩ (lt_of_le_of_ne ?_ between)
    rw [half] at most
    clear half
    generalize (2 : ℝ) ^ 1024 = limit at *
    generalize (2 : ℝ) ^ 970 = step at *
    by_contra above
    have apart := neg_le_abs (|r| - |v|)
    rcases abs_cases (limit - |v|) with ⟨eq, -⟩ | ⟨eq, -⟩ <;> linarith
  · obtain ⟨negative, n, d, canonical, nearest, read⟩ := computes
    have outside : 972 ≤ d := by
      by_contra inside
      rw [if_neg inside] at read
      exact finite ⟨_, ⟨_, read, rfl⟩, nearest⟩
    have least := canonical.limit_le outside
    rw [← abs_value negative] at least
    rw [if_pos outside] at read
    have largest := nearest.abs.least _ isDouble_top
    refine iff_of_false ?_ fun inside => ?_
    · rintro ⟨r, b, other, -⟩
      rw [read] at other
      cases other
    · rw [half] at largest
      clear half
      generalize (2 : ℝ) ^ 1024 = limit at *
      generalize (2 : ℝ) ^ 970 = step at *
      have apart := le_abs_self (|Binary.value ⟨negative, n, d⟩| - |v|)
      rcases abs_cases (limit - 2 * step - |v|) with ⟨eq, -⟩ | ⟨eq, -⟩ <;> linarith

theorem neg (computes : Computes x v) : Computes (-x) (-v) := by
  obtain ⟨negative, n, d, canonical, nearest, read⟩ := computes
  refine ⟨!negative, n, d, canonical, (value_not ⟨negative, n, d⟩).symm ▸ nearest.neg, ?_⟩
  rw [reading_neg, read]
  split <;> rfl

end Computes

/-! ### Sums and differences -/

theorem Unpacked.computes {u : UnpackedFloat} (unpacked : Unpacked u r) :
    Computes (.ofModel (Float.Model.pack u)) r := by
  cases unpacked with
  | zero s => exact computes_zero s
  | finite s m e positive canonical most =>
    refine ⟨s == .negative, m, e, canonical, ⟨⟨_, canonical, rfl⟩, fun d _ => by simp⟩, ?_⟩
    rw [reading_ofModel, ofUnpacked_pack canonical positive]

theorem Unpacked.neg {u : UnpackedFloat} (unpacked : Unpacked u r) : Unpacked u.neg (-r) := by
  cases unpacked with
  | zero s =>
    rw [neg_zero]
    exact .zero (-s)
  | finite s m e positive canonical most =>
    have opposite := Unpacked.finite (-s) m e positive canonical most
    have sign : ((-s) == Sign.negative) = !(s == .negative) := by cases s <;> decide
    rw [sign] at opposite
    rw [← value_not]
    exact opposite

/-- A size with a sign is rounded once, whatever its exponent. -/
theorem computes_round (s : Sign) {m : Nat} (positive : 0 < m) (e : Int) :
    Computes (.ofModel (Float.Model.pack (UnpackedFloat.round Format.binary64 s m e)))
      ((if s == .negative then -1 else 1) * (m * 2 ^ e)) := by
  obtain ⟨k, k_eq⟩ : ∃ k, k = (e - fit m e).toNat := ⟨_, rfl⟩
  have shifted : UnpackedFloat.round Format.binary64 s m e =
      roundWithAccuracy Format.binary64 s (m * 2 ^ k) (e - k) .exact := by
    unfold UnpackedFloat.round decreaseExponent
    rw [targetExponent_eq]
    dsimp only
    rw [← k_eq, Nat.shiftLeft_eq]
  have low : e - k ≤ fit (m * 2 ^ k) (e - k) := by
    unfold fit at k_eq ⊢
    rw [log2_mul_two_pow positive]
    omega
  have rounded := computes_rounded s (describes_exact (m * 2 ^ k)) low
  have exact_ : ((m * 2 ^ k : Nat) : ℝ) * 2 ^ (e - k) = m * 2 ^ e := by
    rw [zpow_sub₀ (by norm_num), zpow_natCast]
    push_cast
    field_simp
  rwa [exact_, ← shifted] at rounded

theorem computes_normalize (z e : Int) (s : Sign) :
    Computes (.ofModel (Float.Model.pack (UnpackedFloat.normalize Format.binary64 z e s))) (z * 2 ^ e) := by
  unfold UnpackedFloat.normalize
  rcases lt_trichotomy z 0 with below | rfl | above
  · rw [compare_lt_iff_lt.mpr below]
    have rounded := computes_round .negative (m := (-z).toNat) (by omega) e
    have size : (((-z).toNat : Nat) : ℝ) = -z := by exact_mod_cast Int.toNat_of_nonneg (by omega : 0 ≤ -z)
    rw [size] at rounded
    simpa using rounded
  · simpa using computes_zero s
  · rw [compare_gt_iff_gt.mpr above]
    have rounded := computes_round .positive (m := z.toNat) (by omega) e
    have size : ((z.toNat : Nat) : ℝ) = z := by exact_mod_cast Int.toNat_of_nonneg above.le
    rw [size] at rounded
    simpa using rounded

/-- Digits brought to a smaller exponent are as much as they were. -/
theorem apply_shifted (s : Sign) (m : Nat) {d e : Int} (below : e ≤ d) :
    ((s.apply (m <<< (d - e).toNat : Nat) : Int) : ℝ) * 2 ^ e = Binary.value ⟨s == .negative, m, d⟩ := by
  have shifted : ((m <<< (d - e).toNat : Nat) : ℝ) * 2 ^ e = m * 2 ^ d := by
    obtain ⟨k, k_eq⟩ : ∃ k : Nat, d = e + k := ⟨(d - e).toNat, by omega⟩
    have amount : (d - e).toNat = k := by omega
    rw [amount, Nat.shiftLeft_eq, k_eq, zpow_add₀ (by norm_num), zpow_natCast]
    push_cast
    ring
  rw [value_signed, ← shifted]
  cases s <;> simp [Sign.apply, -Int.natCast_shiftLeft]

theorem computes_sum {u w : UnpackedFloat} (left : Unpacked u r) (right : Unpacked w s) :
    Computes (.ofModel (Float.Model.pack (UnpackedFloat.add Format.binary64 u w))) (r + s) := by
  cases left with
  | zero a =>
    rw [zero_add]
    cases right with
    | zero b => cases a <;> cases b <;> exact computes_zero _
    | finite b n e positive' canonical' most' => exact (Unpacked.finite b n e positive' canonical' most').computes
  | finite a m d positive canonical most =>
    cases right with
    | zero b =>
      rw [add_zero]
      exact (Unpacked.finite a m d positive canonical most).computes
    | finite b n e positive' canonical' most' =>
      have rounded := computes_normalize
        (a.apply (m <<< (d - min d e).toNat : Nat) + b.apply (n <<< (e - min d e).toNat : Nat)) (min d e) .positive
      rw [Int.cast_add, add_mul, apply_shifted a m (min_le_left d e), apply_shifted b n (min_le_right d e)] at rounded
      exact rounded

theorem sub_eq_add_opposite (u w : UnpackedFloat) :
    UnpackedFloat.sub Format.binary64 u w = UnpackedFloat.add Format.binary64 u w.neg := by
  cases u with
  | notANumber => rfl
  | infinity a => cases w <;> rfl
  | zero a => cases w <;> rfl
  | finite a m d positive =>
    cases w with
    | finite b n e positive' =>
      have opposite : ∀ z : Int, (-b).apply z = -b.apply z := by
        intro z
        cases b with
        | negative => exact (Int.neg_neg z).symm
        | positive => rfl
      simp only [UnpackedFloat.sub, UnpackedFloat.add, UnpackedFloat.neg, opposite, Int.sub_eq_add_neg]
    | _ => rfl

/-- A sum is rounded once. -/
theorem computes_add (left : Denotes x r) (right : Denotes y s) : Computes (x + y) (r + s) :=
  computes_sum left.unpacked right.unpacked

/-- A difference is rounded once. -/
theorem computes_sub (left : Denotes x r) (right : Denotes y s) : Computes (x - y) (r - s) := by
  have opposite : x - y = .ofModel (Float.Model.pack (UnpackedFloat.add Format.binary64 x.toModel.unpack
      y.toModel.unpack.neg)) := by
    rw [← sub_eq_add_opposite]
    rfl
  rw [opposite, sub_eq_add_neg]
  exact computes_sum left.unpacked right.unpacked.neg

/-! ### Products and quotients -/

theorem sign_mul (a b : Sign) : ((if (a * b) == Sign.negative then -1 else 1 : ℝ)) =
    (if a == .negative then -1 else 1) * (if b == .negative then -1 else 1) := by
  have cases_ : ∀ a b : Sign, ((a * b) == Sign.negative) = ((a == .negative) != (b == .negative)) := by
    intro a b
    cases a <;> cases b <;> decide
  rw [cases_]
  cases a == Sign.negative <;> cases b == Sign.negative <;> norm_num

theorem sign_div (a b : Sign) : ((if (a / b) == Sign.negative then -1 else 1 : ℝ)) =
    (if a == .negative then -1 else 1) / (if b == .negative then -1 else 1) := by
  have product : a / b = a * b := by cases a <;> cases b <;> rfl
  rw [product, sign_mul, div_eq_mul_inv]
  cases b == Sign.negative <;> norm_num

/-- The digits of a product are those of a double at least. -/
theorem low_product {m n : Nat} {d e : Int} (first : Canonical m d) (second : Canonical n e) (positive : 0 < m)
    (positive' : 0 < n) : d + e ≤ fit (m * n) (d + e) := by
  have one_le : 1 ≤ m := positive
  have grows {k l : Nat} (few : 2 ^ 52 ≤ k) (some_ : 1 ≤ l) : 52 ≤ (k * l).log2 :=
    (Nat.le_log2 (Nat.mul_pos (by omega) (by omega)).ne').mpr (few.trans (Nat.le_mul_of_pos_right k some_))
  unfold fit
  rcases first.full with full | tiny
  · have := grows full positive'
    omega
  · rcases second.full with full | tiny'
    · have := grows full positive
      rw [Nat.mul_comm] at this
      omega
    · omega

/-- A product is rounded once. -/
theorem computes_mul (left : Denotes x r) (right : Denotes y s) : Computes (x * y) (r * s) := by
  have first := left.unpacked
  have second := right.unpacked
  rw [unpack_mul]
  generalize x.toModel.unpack = u at *
  generalize y.toModel.unpack = w at *
  cases first with
  | zero a =>
    rw [zero_mul]
    cases second with
    | zero b => exact computes_zero _
    | finite b => exact computes_zero _
  | finite a m d positive canonical =>
    cases second with
    | zero b =>
      rw [mul_zero]
      exact computes_zero _
    | finite b n e positive' canonical' =>
      have rounded := computes_rounded (a * b) (describes_exact (m * n))
        (low_product canonical canonical' positive positive')
      have exact_ : (if (a * b) == .negative then -1 else 1) * (((m * n : Nat) : ℝ) * 2 ^ (d + e)) =
          Binary.value ⟨a == .negative, m, d⟩ * Binary.value ⟨b == .negative, n, e⟩ := by
        rw [value_signed, value_signed, sign_mul, zpow_add₀ (by norm_num)]
        push_cast
        ring
      rw [← exact_]
      exact rounded

/-- The first factor of a finite product is finite. -/
theorem denotes_of_product (factor : IsFactor y) (product : Denotes (x * y) v) : ∃ r, Denotes x r := by
  obtain ⟨s, m, e, positive, unpacked⟩ := factor.unpack
  obtain ⟨b, read, -⟩ := product
  rw [unpack_mul, unpacked] at read
  cases there : x.toModel.unpack with
  | zero s => exact ⟨_, _, by rw [reading_eq, there]; rfl, rfl⟩
  | finite s m e positive => exact ⟨_, _, by rw [reading_eq, there]; rfl, rfl⟩
  | notANumber =>
    have nan : reading (.ofModel (Float.Model.pack .notANumber)) = .nan := by decide +kernel
    rw [there, UnpackedFloat.mul, nan] at read
    cases read
  | infinity t =>
    have infinite : ∀ t, reading (.ofModel (Float.Model.pack (.infinity t))) = .infinite (t == .negative) := by
      intro t
      cases t <;> decide +kernel
    rw [there, UnpackedFloat.mul, infinite] at read
    cases read

/-- The digits of a quotient are as many as a double has, unless its exponent is the least one. -/
theorem low_quotient {m n : Nat} (d e : Int) (positive : 0 < m) (positive' : 0 < n) {t : Int}
    (target : t = min (d - e) (max (m.log2 + 1 + d - (n.log2 + 1 + e) - 53) (-1074))) :
    t ≤ fit (m * 2 ^ (d - e - t).toNat / n) t := by
  by_cases tiny : t ≤ -1074
  · unfold fit
    omega
  have shift : n.log2 + 53 ≤ m.log2 + (d - e - t).toNat := by omega
  have few : n < 2 ^ (n.log2 + 1) := Nat.lt_log2_self
  have many : 2 ^ m.log2 ≤ m := (Nat.le_log2 positive.ne').mp (Nat.le_refl _)
  have full : 2 ^ 52 ≤ m * 2 ^ (d - e - t).toNat / n := by
    refine (Nat.le_div_iff_mul_le positive').mpr ?_
    calc 2 ^ 52 * n ≤ 2 ^ 52 * 2 ^ (n.log2 + 1) := Nat.mul_le_mul_left _ few.le
      _ = 2 ^ (n.log2 + 53) := by rw [← pow_add]; congr 1; omega
      _ ≤ 2 ^ (m.log2 + (d - e - t).toNat) := Nat.pow_le_pow_right (by decide) shift
      _ ≤ m * 2 ^ (d - e - t).toNat := by
        rw [pow_add]
        exact Nat.mul_le_mul_right _ many
  have log := (Nat.le_log2 (Nat.lt_of_lt_of_le (Nat.two_pow_pos 52) full).ne').mpr full
  unfold fit
  omega

/-- Digits with signs are divided with one rounding; they need not be canonical. -/
theorem computes_digits_div (a b : Sign) {m n : Nat} (d e : Int) (positive : 0 < m) (positive' : 0 < n) :
    Computes (.ofModel (Float.Model.pack (UnpackedFloat.div Format.binary64 (.finite a m d positive)
      (.finite b n e positive')))) (Binary.value ⟨a == .negative, m, d⟩ / Binary.value ⟨b == .negative, n, e⟩) := by
  -- The exponent at which the quotient has as many digits as a double.
  obtain ⟨t, target⟩ : ∃ t, t = min (d - e) (max (m.log2 + 1 + d - (n.log2 + 1 + e) - 53) (-1074)) := ⟨_, rfl⟩
  have least : t ≤ d - e := target ▸ min_le_left _ _
  have core : divCore Format.binary64 m d n e = (m * 2 ^ (d - e - t).toNat / n, t,
      accuracyOfFraction (m * 2 ^ (d - e - t).toNat % n) n) := by
    unfold divCore
    rw [target]
    simp only [Nat.shiftLeft_eq]
    rfl
  have quotient : UnpackedFloat.div Format.binary64 (.finite a m d positive) (.finite b n e positive') =
      roundWithAccuracy Format.binary64 (a / b) (m * 2 ^ (d - e - t).toNat / n) t
        (accuracyOfFraction (m * 2 ^ (d - e - t).toNat % n) n) := by
    simp only [UnpackedFloat.div, core]
  rw [quotient]
  have rounded := computes_rounded (a / b) (describes_quotient (m * 2 ^ (d - e - t).toNat) positive')
    (low_quotient d e positive positive' target)
  have exact_ : (if (a / b) == .negative then -1 else 1) * (((m * 2 ^ (d - e - t).toNat : Nat) : ℝ) / n * 2 ^ t) =
      Binary.value ⟨a == .negative, m, d⟩ / Binary.value ⟨b == .negative, n, e⟩ := by
    have shifted : (2 : ℝ) ^ (d - e - t).toNat * 2 ^ t = 2 ^ d / 2 ^ e := by
      rw [← zpow_natCast, ← zpow_add₀ (by norm_num), ← zpow_sub₀ (by norm_num)]
      congr 1
      omega
    have digits : (n : ℝ) ≠ 0 := by exact_mod_cast positive'.ne'
    rw [value_signed, value_signed, sign_div, mul_div_mul_comm, mul_div_mul_comm, ← shifted]
    push_cast
    ring
  rw [← exact_]
  exact rounded

/-- A quotient is rounded once. -/
theorem computes_div (left : Denotes x r) (right : Denotes y s) (nonzero : s ≠ 0) : Computes (x / y) (r / s) := by
  have first := left.unpacked
  have second := right.unpacked
  have quotient : x / y = .ofModel (Float.Model.pack
    (UnpackedFloat.div Format.binary64 x.toModel.unpack y.toModel.unpack)) := rfl
  rw [quotient]
  generalize x.toModel.unpack = u at *
  generalize y.toModel.unpack = w at *
  cases second with
  | zero b => exact absurd rfl nonzero
  | finite b n e positive' canonical' =>
    cases first with
    | zero a =>
      rw [zero_div]
      exact computes_zero _
    | finite a m d positive canonical => exact computes_digits_div a b d e positive positive'

/-! ### Sizes -/

/-- The double is finite, and its size is no more than a power of two. -/
inductive Sized (x : Float) (k : Nat) : Prop
  | of (r : ℝ) (denotes : Denotes x r) (bound : |r| ≤ 2 ^ k)

theorem Computes.within_power (computes : Computes x v) {k : Nat} (few : k ≤ 1023) (bound : |v| ≤ 2 ^ k) :
    ∃ r, Denotes x r ∧ Nearest r v ∧ |r| ≤ 2 ^ k := by
  obtain ⟨r, denotes, nearest⟩ := computes.denotes (bound.trans (pow_le_pow_right₀ (by norm_num) few))
  exact ⟨r, denotes, nearest, nearest.abs_le_power bound⟩

theorem Computes.sized (computes : Computes x v) {k : Nat} (few : k ≤ 1023) (bound : |v| ≤ 2 ^ k) : Sized x k := by
  obtain ⟨r, denotes, -, bound⟩ := computes.within_power few bound
  exact ⟨r, denotes, bound⟩

namespace Sized

variable {j k : Nat}

theorem add (left : Sized x k) (right : Sized y k) (few : k ≤ 1022) : Sized (x + y) (k + 1) := by
  obtain ⟨r, denotes, bound⟩ := left
  obtain ⟨s, denotes', bound'⟩ := right
  refine (computes_add denotes denotes').sized (by omega) ?_
  rw [pow_succ, mul_two]
  exact (abs_add_le r s).trans (add_le_add bound bound')

theorem sub (left : Sized x k) (right : Sized y k) (few : k ≤ 1022) : Sized (x - y) (k + 1) := by
  obtain ⟨r, denotes, bound⟩ := left
  obtain ⟨s, denotes', bound'⟩ := right
  refine (computes_sub denotes denotes').sized (by omega) ?_
  rw [pow_succ, mul_two]
  exact (abs_sub r s).trans (add_le_add bound bound')

theorem mul (left : Sized x j) (right : Sized y k) (few : j + k ≤ 1023) : Sized (x * y) (j + k) := by
  obtain ⟨r, denotes, bound⟩ := left
  obtain ⟨s, denotes', bound'⟩ := right
  refine (computes_mul denotes denotes').sized few ?_
  rw [abs_mul, pow_add]
  exact mul_le_mul bound bound' (abs_nonneg s) (by positivity)

/-- A divisor from one on makes nothing larger. -/
theorem div (left : Sized x k) (right : Denotes y s) (least : 1 ≤ s) (few : k ≤ 1023) : Sized (x / y) k := by
  obtain ⟨r, denotes, bound⟩ := left
  refine (computes_div denotes right (by linarith)).sized few ?_
  rw [abs_div, abs_of_pos (by linarith : 0 < s)]
  exact (div_le_self (abs_nonneg r) least).trans bound

theorem mono (sized : Sized x j) (le : j ≤ k) : Sized x k := by
  obtain ⟨r, denotes, bound⟩ := sized
  exact ⟨r, denotes, bound.trans (pow_le_pow_right₀ (by norm_num) le)⟩

end Sized

/-! ### Numerals -/

theorem denotes_of_quotient {b : Binary} {q : ℚ} (read : reading x = .finite b)
    (same : (b.quotient.1 : ℚ) = q * b.quotient.2) : Denotes x q := by
  refine ⟨b, read, ?_⟩
  obtain ⟨positive, product⟩ := value_mul_quotient b
  have positive : (b.quotient.2 : ℝ) ≠ 0 := by exact_mod_cast positive.ne'
  have same : (b.quotient.1 : ℝ) = q * b.quotient.2 := by exact_mod_cast same
  exact mul_right_cancel₀ positive (product.trans same)

theorem denotes_zero : Denotes 0.0 0 := by
  refine ⟨⟨false, 0, -1074⟩, by decide +kernel, by simp [Binary.value]⟩

theorem denotes_toFloat {n : Nat} (small : n < 2 ^ 53) : Denotes n.toUInt64.toFloat n := by
  rcases Nat.eq_zero_or_pos n with rfl | positive
  · exact ⟨⟨false, 0, -1074⟩, by decide +kernel, by simp [Binary.value]⟩
  · have log : n.log2 ≤ 52 := Nat.lt_succ_iff.mp ((Nat.log2_lt positive.ne').mpr small)
    refine ⟨_, reading_small small positive, ?_⟩
    have back : (2 : ℝ) ^ (52 - n.log2) * 2 ^ ((n.log2 : Int) - 52) = 1 := by
      rw [← zpow_natCast, ← zpow_add₀ (by norm_num)]
      have none : ((52 - n.log2 : Nat) : Int) + (n.log2 - 52) = 0 := by omega
      rw [none, zpow_zero]
    rw [value_positive, Nat.cast_mul, Nat.cast_pow, mul_assoc, Nat.cast_ofNat, back, mul_one]

theorem powersOfTen_size : Float.exactlyRepresentablePowersOfTen.size = 23 := rfl

theorem denotes_powerOfTen {k : Nat} (few : k < Float.exactlyRepresentablePowersOfTen.size) :
    Denotes Float.exactlyRepresentablePowersOfTen[k] (10 ^ k) := by
  have each : ∀ k : Fin 23, (match reading Float.exactlyRepresentablePowersOfTen[k] with
      | .finite b => decide (b.quotient.1 = 10 ^ k.val * b.quotient.2)
      | _ => false) = true := by decide +kernel
  have here := each ⟨k, few⟩
  split at here
  · rename_i b read
    have same : b.quotient.1 = 10 ^ k * b.quotient.2 := of_decide_eq_true here
    have denotes := denotes_of_quotient (q := 10 ^ k) read (by exact_mod_cast same)
    exact_mod_cast denotes
  · cases here

theorem computes_ofNat (n : Nat) : Computes (ofNat n) n := by
  by_cases small : n < 2 ^ 53
  · have one : Denotes (Float.ofBits 0x3FF0000000000000) 1 := by
      have power := denotes_powerOfTen (k := 0) (by decide)
      rwa [pow_zero] at power
    have product := computes_mul (denotes_toFloat small) one
    rwa [mul_one, ← ofNat_eq_fast small] at product
  -- Larger numbers are rounded from their digits with 53 zeros behind them.
  · have positive : 0 < n := by omega
    have low : (-53 : Int) ≤ fit (n * 2 ^ 53) (-53) := by
      unfold fit
      rw [log2_mul_two_pow positive]
      omega
    have rounded := computes_rounded .positive (describes_exact (n * 2 ^ 53)) low
    have exact_ : (if Sign.positive == .negative then -1 else 1) * (((n * 2 ^ 53 : Nat) : ℝ) * 2 ^ (-53 : Int)) = n := by
      rw [positive_beq]
      push_cast
      norm_num
      ring
    rw [ofNat_eq_slow (Nat.le_of_not_lt small)]
    rwa [exact_] at rounded

/-- Powers of two are doubles as far as they are in range. -/
theorem denotes_power {i : Nat} (few : i ≤ 1023) : Denotes (ofNat (2 ^ i)) (2 ^ i) := by
  have computes := computes_ofNat (2 ^ i)
  rw [Nat.cast_pow, Nat.cast_ofNat] at computes
  have bound : |(2 : ℝ) ^ i| ≤ 2 ^ 1023 := by
    rw [abs_of_pos (by positivity)]
    exact pow_le_pow_right₀ (by norm_num) few
  obtain ⟨r, denotes, nearest⟩ := computes.denotes bound
  rwa [nearest.eq_of_isDouble (isDouble_power i)] at denotes

/-- A numeral with few decimals is rounded once. -/
theorem computes_ofScientific (digits : Nat) {k : Nat} (some_ : 0 < k) (few : k ≤ 22) :
    Computes (Float.ofScientific digits true k) (digits / 10 ^ k) := by
  unfold Float.ofScientific
  -- Small digits are a double and so is the power of ten; others are divided as integers, and rounded once as well.
  split
  · rename_i small
    have size := powersOfTen_size
    exact computes_div (denotes_toFloat small.1) (denotes_powerOfTen (by omega)) (by positivity)
  · rename_i large
    have positive : 0 < digits := by
      have : 2 ^ 53 ≤ digits := by omega
      omega
    have quotient := computes_digits_div .positive .positive 0 0 positive (Nat.pow_pos (n := k) (by decide : 0 < 10))
    rw [positive_beq, value_positive, value_positive] at quotient
    have slow : UnpackedFloat.ofScientific Format.binary64 digits (Int.negOfNat k) =
        UnpackedFloat.div Format.binary64 (.finite .positive digits 0 positive)
          (.finite .positive (10 ^ k) 0 (Nat.pow_pos (by decide))) := by
      have down : Int.negOfNat k = -(k : Int) := by cases k <;> rfl
      have bits : Format.binary64.exponentBits = 11 := rfl
      unfold UnpackedFloat.ofScientific
      rw [dif_neg positive.ne', bits, down, if_neg (by omega), if_neg (by omega), if_neg (by omega)]
      simp
    have unfolded : Float.Model.ofScientific digits (Int.negOfNat k) =
        Float.Model.pack (UnpackedFloat.ofScientific Format.binary64 digits (Int.negOfNat k)) := rfl
    dsimp only
    rw [if_pos rfl, unfolded, slow]
    simpa using quotient

/-- The double of a numeral is nearest to what the numeral says, if its decimals are few. -/
theorem computes_ofDecimal (digits count : Nat) {k : Nat} (few : k ≤ 22) :
    Computes (ofDecimal digits count (0 - k)) (digits / 10 ^ k) := by
  unfold ofDecimal
  by_cases none : digits = 0
  · rw [if_pos none, none]
    simpa using denotes_zero.computes
  · rw [if_neg none, if_neg (by omega), if_neg (by omega)]
    rcases Nat.eq_zero_or_pos k with rfl | some_
    · have whole : Computes (Float.ofScientific digits false 0) digits := computes_ofNat digits
      simpa using whole
    · rw [if_pos (by omega)]
      have size : (0 - (k : Int)).natAbs = k := by omega
      rw [size]
      exact computes_ofScientific digits some_ few

end Retouch.Number
