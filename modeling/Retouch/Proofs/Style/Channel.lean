import Retouch.Proofs.Style.Decimals
import Retouch.Proofs.Style.Settled
import Retouch.Style.Color.Reader
import Retouch.Style.Color.Writer

/-!
# Channels that are written and read back

What becomes of one channel of a color between writing and reading, in real numbers. A share of red, green or blue
is written as a byte, which is a whole number in a code and has four decimals in a function; in both cases it is
brought into the range of bytes first. A percentage is divided by a hundred and multiplied again when it is read, and
rounded each time.

## Main statements

* `writeNumber_settles`: a finite double that is written to four decimals comes back as nearly the same.
* `clampByte_close_iff`, `hexPair_cases`: the shares that come back to a hundredth are those less than a hundredth out
  of range.
* `percent_close_iff`: the percentages that do are those that dividing and multiplying keeps.
-/
namespace Retouch.Style

open Retouch.Text Retouch.Number

variable {x y b f : Float} {r s t z error : ℝ}

/-- The doubles are finite and less than a hundredth apart. -/
def Close (x y : Float) : Prop := ∃ r s, Denotes x r ∧ Denotes y s ∧ |r - s| < 1 / 100

theorem close_iff (left : Denotes x r) (right : Denotes y s) : Close x y ↔ |r - s| < 1 / 100 := by
  constructor
  · rintro ⟨r', s', left', right', near⟩
    rwa [left.unique left', right.unique right']
  · exact fun near => ⟨r, s, left, right, near⟩

/-! ### Constants -/

theorem denotes_one : Denotes 1.0 1 :=
  ⟨⟨false, 2 ^ 52, -52⟩, by decide +kernel, by norm_num [Binary.value]⟩

theorem denotes_hundred : Denotes 100.0 100 :=
  ⟨⟨false, 100 * 2 ^ 46, -46⟩, by decide +kernel, by norm_num [Binary.value]⟩

theorem denotes_byte : Denotes 255.0 255 :=
  ⟨⟨false, 255 * 2 ^ 45, -45⟩, by decide +kernel, by norm_num [Binary.value]⟩

/-! ### Numbers that are settled -/

/-- What a double is once it was written to four decimals and read again. -/
inductive Settles (x y : Float) : Prop
  | of (r t : ℝ) (before : Denotes x r) (after : Denotes y t) (near : |t - r| ≤ 1 / 10 ^ 4)
    (whole : ∀ n : Int, r = n → t = r)

theorem Settles.close (settles : Settles x y) : Close x y := by
  obtain ⟨r, t, left, right, near, -⟩ := settles
  refine ⟨r, t, left, right, ?_⟩
  rw [abs_sub_comm]
  norm_num at near ⊢
  linarith

theorem denotes_of_isFinite (finite : IsFinite x) : ∃ r, Denotes x r := by
  obtain ⟨b, read⟩ := finite
  exact ⟨b.value, b, read, rfl⟩

theorem isFinite_of_denotes (denotes : Denotes x r) : IsFinite x := by
  obtain ⟨b, read, -⟩ := denotes
  exact ⟨b, read⟩

theorem writeNumber_settles (finite : IsFinite x) :
    ∃ figures : Figures, writeNumber 4 x = .ok (String.ofList figures.chars) ∧ Settles x figures.value := by
  obtain ⟨r, denotes⟩ := denotes_of_isFinite finite
  obtain ⟨figures, t, written, back, near, whole⟩ :=
    written_back denotes (by norm_num : 0 < 4) (by norm_num)
  exact ⟨figures, written, r, t, denotes, back, near, whole⟩

/-! ### Shares -/

/-- A number between 0 and 255 that stands for a share, up to an error; what is out of range goes to its end. -/
structure Byte (error r t : ℝ) : Prop where
  low : r ≤ 0 → t = 0
  high : 1 ≤ r → t = 255
  near : 0 ≤ r → r ≤ 1 → |t - 255 * r| ≤ error

/-- Less than a hundredth out of the range from 0 to 1. -/
def InRange (x : Float) : Prop := ∃ r, Denotes x r ∧ -1 / 100 < r ∧ r < 101 / 100

theorem inRange_iff (denotes : Denotes x r) : InRange x ↔ -1 / 100 < r ∧ r < 101 / 100 := by
  constructor
  · rintro ⟨r', denotes', inside⟩
    rwa [denotes.unique denotes']
  · exact fun inside => ⟨r, denotes, inside⟩

/-- Shares that read back to a hundredth are those less than a hundredth out of range. -/
theorem Byte.close_iff (byte : Byte error r t) (small : error ≤ 51 / 100) (denotes : Denotes x r) (stands : Denotes b t) :
    Close x (b / 255.0) ↔ InRange x := by
  -- The quotient is rounded at the size of the largest byte.
  have size : |t / 255| ≤ 2 ^ (1 : Int) := by
    have bound : |t| ≤ 256 := by
      rcases le_total r 0 with below | above
      · simp [byte.low below]
      rcases le_total r 1 with inside | beyond
      · have near := abs_le.mp (byte.near above inside)
        exact abs_le.mpr ⟨by linarith, by linarith⟩
      · norm_num [byte.high beyond]
    rw [abs_div, abs_of_pos (by norm_num : (0 : ℝ) < 255), div_le_iff₀ (by norm_num)]
    exact bound.trans (by norm_num)
  obtain ⟨s, back, nearest, moved⟩ :=
    (computes_div stands denotes_byte (by norm_num)).within (by norm_num) (by norm_num) size
  have tiny : (2 : ℝ) ^ (1 - 54 : Int) ≤ 1 / 1000 := by norm_num
  have moved := abs_le.mp (moved.trans tiny)
  rw [Style.close_iff denotes back, inRange_iff denotes]
  -- Out of range nothing is lost by rounding: the ends are doubles.
  have low (below : r ≤ 0) : s = 0 := by
    rw [byte.low below, zero_div] at nearest
    exact nearest.eq_of_isDouble .zero
  have high (above : 1 ≤ r) : s = 1 := by
    rw [byte.high above, div_self (by norm_num)] at nearest
    exact nearest.eq_of_isDouble denotes_one.isDouble
  rcases le_total r 0 with below | above
  · rw [low below, sub_zero, abs_of_nonpos below]
    constructor <;> intro near
    · exact ⟨by linarith, by linarith⟩
    · linarith
  rcases le_total r 1 with inside | beyond
  · have near := abs_le.mp (byte.near above inside)
    refine ⟨fun _ => ⟨by linarith, by linarith⟩, fun _ => ?_⟩
    rw [abs_lt]
    constructor <;> linarith
  · rw [high beyond, abs_of_nonneg (by linarith)]
    constructor <;> intro near
    · exact ⟨by linarith, by linarith⟩
    · linarith

theorem computes_share (denotes : Denotes x r) : Computes (x * 255.0) (r * 255) := computes_mul denotes denotes_byte

/-- Inside the range the product stays there, and is rounded but little. -/
theorem share_near (nearest : Nearest z (r * 255)) (above : 0 ≤ r) (below : r ≤ 1) :
    0 ≤ z ∧ z ≤ 255 ∧ |z - 255 * r| ≤ 1 / 100 := by
  refine ⟨nearest.le_of_ge .zero (by linarith), nearest.le_of_le denotes_byte.isDouble (by linarith), ?_⟩
  have bound : |r * 255| ≤ 2 ^ (8 : Int) := by
    rw [abs_of_nonneg (by linarith)]
    norm_num
    linarith
  rw [mul_comm]
  exact (nearest.within (by norm_num) bound).trans (by norm_num)

theorem byte_of_nearest (nearest : Nearest z (r * 255)) : Byte (1 / 100) r (min 255 (max 0 z)) where
  low below := by
    have under := nearest.le_of_le .zero (by linarith)
    rw [max_eq_left under]
    norm_num
  high above := by
    have past := nearest.le_of_ge denotes_byte.isDouble (by linarith)
    rw [max_eq_right (by linarith), min_eq_left past]
  near above below := by
    obtain ⟨least, most, near⟩ := share_near nearest above below
    rwa [max_eq_right least, min_eq_right most]

theorem denotes_larger (left : Denotes x r) (right : Denotes y s) : Denotes (larger x y) (max r s) := by
  unfold larger
  by_cases below : r < s
  · rwa [if_pos ((left.lt_iff right).mpr below), max_eq_right below.le]
  · rwa [if_neg (mt (left.lt_iff right).mp below), max_eq_left (not_lt.mp below)]

theorem denotes_smaller (left : Denotes x r) (right : Denotes y s) : Denotes (smaller x y) (min r s) := by
  unfold smaller
  by_cases below : s < r
  · rwa [if_pos ((right.lt_iff left).mpr below), min_eq_right below.le]
  · rwa [if_neg (mt (right.lt_iff left).mp below), min_eq_left (not_lt.mp below)]

theorem limit_large : (512 : ℝ) ≤ 2 ^ 1023 := by
  calc (512 : ℝ) ≤ 2 ^ 9 := by norm_num
    _ ≤ 2 ^ 1023 := pow_le_pow_right₀ (by norm_num) (by norm_num)

/-- The channel of the `rgb` function stands for the share. -/
theorem clampByte_byte (denotes : Denotes x r) : ∃ t, Denotes (Color.clampByte x) t ∧ Byte (1 / 100) r t := by
  have limit := limit_large
  unfold Color.clampByte smaller larger
  rcases (computes_share denotes).finite_or with ⟨z, stands, nearest⟩ | ⟨read, large⟩ | ⟨read, large⟩
  · exact ⟨_, denotes_smaller denotes_byte (denotes_larger denotes_zero stands), byte_of_nearest nearest⟩
  -- An infinite product is no finite share, so only the end it goes to is asked for.
  · have top : (reading (x * 255.0)).value? = some ⊤ := by rw [read]; rfl
    have positive : (0.0 : Float) < x * 255.0 := (lt_iff_value denotes_zero.value? top).mpr (EReal.coe_lt_top _)
    have above : ¬x * 255.0 < 255.0 := mt (lt_iff_value top denotes_byte.value?).mp (by simp)
    rw [if_pos positive, if_neg above]
    generalize (2 : ℝ) ^ 1023 = limit at *
    exact ⟨255, denotes_byte, fun below => by linarith, fun _ => rfl, fun _ inside => by linarith⟩
  · have bottom : (reading (x * 255.0)).value? = some ⊥ := by rw [read]; rfl
    have negative : ¬(0.0 : Float) < x * 255.0 := mt (lt_iff_value denotes_zero.value? bottom).mp (by simp)
    rw [if_neg negative, if_pos ((denotes_zero.lt_iff denotes_byte).mpr (by norm_num))]
    generalize (2 : ℝ) ^ 1023 = limit at *
    exact ⟨0, denotes_zero, fun _ => rfl, fun above => by linarith, fun above => by linarith⟩

/-- A byte that is written to four decimals and read again still stands for the share. -/
theorem Byte.written (byte : Byte error r s) (near : |t - s| ≤ 1 / 10 ^ 4) (whole : ∀ n : Int, s = n → t = s) :
    Byte (error + 1 / 10 ^ 4) r t where
  low below := (whole 0 (by simp [byte.low below])).trans (byte.low below)
  high above := (whole 255 (by simp [byte.high above])).trans (byte.high above)
  near above below := by
    have sum := abs_sub_le t s (255 * r)
    have := byte.near above below
    linarith

/-- A channel of the `rgb` function reads back to a hundredth just where the share is in range. -/
theorem clampByte_close_iff (finite : IsFinite x) (settles : Settles (Color.clampByte x) y) :
    Close x (y / 255.0) ↔ InRange x := by
  obtain ⟨r, denotes⟩ := denotes_of_isFinite finite
  obtain ⟨t, stands, byte⟩ := clampByte_byte denotes
  obtain ⟨t', s, stands', back, near, whole⟩ := settles
  obtain rfl := stands.unique stands'
  exact (byte.written near whole).close_iff (by norm_num) denotes back

theorem nearestInt_eq (denotes : Denotes x r) : ∃ n : Int, nearestInt x = .ok n ∧ |(n : ℝ) - r| ≤ 1 / 2 := by
  obtain ⟨b, read, rfl⟩ := denotes
  have near := (roundsTo_units b 0).near
  rw [pow_zero, mul_one] at near
  have size : nearestInt x = .ok (units b 0) := by
    unfold nearestInt units
    rw [read]
    cases sign : b.negative <;> simp [sign]
  exact ⟨units b 0, size, near⟩

theorem denotes_ofNat {n : Nat} (small : n < 2 ^ 53) : Denotes (ofNat n) n := by
  have double : IsDouble (n : ℝ) := (denotes_toFloat small).isDouble
  have bound : |(n : ℝ)| ≤ 2 ^ (53 : Int) := by
    rw [Nat.abs_cast]
    exact_mod_cast small.le
  obtain ⟨r, denotes, nearest, -⟩ := (computes_ofNat n).within (by norm_num) (by norm_num) bound
  rwa [nearest.eq_of_isDouble double] at denotes

/-- A rounded product that is brought into range stands for the share. -/
theorem byte_of_rounded (nearest : Nearest z (r * 255)) {n : Int} (near : |(n : ℝ) - z| ≤ 1 / 2) {m : Nat}
    (clamped : (m : Int) = min 255 (max 0 n)) : Byte (51 / 100) r m := by
  have near := abs_le.mp near
  constructor
  · intro below
    have under := nearest.le_of_le .zero (by linarith)
    have : (n : ℝ) < 1 := by linarith
    have : n < 1 := by exact_mod_cast this
    have none : m = 0 := by omega
    simp [none]
  · intro above
    have past := nearest.le_of_ge denotes_byte.isDouble (by linarith)
    have : (254 : ℝ) < n := by linarith
    have : 254 < n := by exact_mod_cast this
    have full : m = 255 := by omega
    simp [full]
  · intro above below
    obtain ⟨past, under, moved⟩ := share_near nearest above below
    have moved := abs_le.mp moved
    have least : (-1 : ℝ) < n := by linarith
    have most : (n : ℝ) < 256 := by linarith
    have least : -1 < n := by exact_mod_cast least
    have most : n < 256 := by exact_mod_cast most
    have same : (m : ℝ) = n := by exact_mod_cast (show (m : Int) = n by omega)
    rw [same, abs_le]
    constructor <;> linarith

/-- The digits of a code read back to a hundredth just where the share is in range; there are none where the product
is too large. -/
theorem hexPair_cases (finite : IsFinite x) :
    (∃ n < 256, hexPair x = .ok (String.ofList (hexChars 2 n)) ∧ (Close x (ofNat n / 255.0) ↔ InRange x)) ∨
      hexPair x = .error .infinite ∧ ¬InRange x := by
  obtain ⟨r, denotes⟩ := denotes_of_isFinite finite
  have limit := limit_large
  have refused {negative : Bool} (read : reading (x * 255.0) = .infinite negative) :
      hexPair x = .error .infinite := by
    unfold hexPair nearestInt
    rw [read]
    rfl
  rcases (computes_share denotes).finite_or with ⟨z, stands, nearest⟩ | ⟨read, large⟩ | ⟨read, large⟩
  · obtain ⟨n, rounded, near⟩ := nearestInt_eq stands
    obtain ⟨m, m_eq⟩ : ∃ m, m = (min 255 (max 0 n)).toNat := ⟨_, rfl⟩
    have byte := byte_of_rounded nearest near (show (m : Int) = min 255 (max 0 n) by omega)
    refine .inl ⟨m, by omega, ?_, byte.close_iff (le_refl _) denotes (denotes_ofNat (by omega))⟩
    unfold hexPair
    rw [rounded, m_eq]
    rfl
  · refine .inr ⟨refused read, ?_⟩
    intro inside
    have below := ((inRange_iff denotes).mp inside).2
    generalize (2 : ℝ) ^ 1023 = limit at *
    linarith
  · refine .inr ⟨refused read, ?_⟩
    intro inside
    have above := ((inRange_iff denotes).mp inside).1
    generalize (2 : ℝ) ^ 1023 = limit at *
    linarith

/-! ### Percentages -/

/-- The percentage keeps to a hundredth when it is divided by a hundred and multiplied again, as all do that are not
very large. -/
inductive KeepsPercent (x : Float) : Prop
  | small (r : ℝ) (denotes : Denotes x r) (less : |r| < 2 ^ 45)
  | near (close : Close x (x / 100.0 * 100.0))

/-- Dividing by a hundred and multiplying again moves a percentage by the sum of two roundings. -/
theorem percent_moved (stands : Denotes f t) (bound : |t| ≤ 2 ^ 45 + 1) :
    ∃ s, Denotes (f / 100.0 * 100.0) s ∧ |s - t| ≤ 7 / 1000 := by
  -- The quotient is rounded to 1 / 32768 at most, which counts a hundred times; the product to 1 / 256.
  have quotient_bound : |t / 100| ≤ 2 ^ (39 : Int) := by
    rw [abs_div, abs_of_pos (by norm_num : (0 : ℝ) < 100), div_le_iff₀ (by norm_num)]
    exact bound.trans (by norm_num)
  obtain ⟨q, quotient, -, moved⟩ :=
    (computes_div stands denotes_hundred (by norm_num)).within (by norm_num) (by norm_num) quotient_bound
  have half : (2 : ℝ) ^ (39 - 54 : Int) = 1 / 32768 := by norm_num
  have moved := abs_le.mp (half ▸ moved)
  have bound := abs_le.mp bound
  have product_bound : |q * 100| ≤ 2 ^ (46 : Int) := by
    rw [abs_le]
    constructor <;> norm_num <;> linarith
  obtain ⟨s, product, -, moved'⟩ :=
    (computes_mul quotient denotes_hundred).within (by norm_num) (by norm_num) product_bound
  have half' : (2 : ℝ) ^ (46 - 54 : Int) = 1 / 256 := by norm_num
  have moved' := abs_le.mp (half' ▸ moved')
  refine ⟨s, product, abs_le.mpr ⟨?_, ?_⟩⟩ <;> linarith

/-- Doubles that large are integers times a small unit, so that the next ones are not near. -/
theorem eq_of_large (left : IsDouble r) (right : IsDouble t) (large : 2 ^ 45 ≤ |r|) (near : |t - r| ≤ 1 / 10 ^ 4) :
    t = r := by
  have power (k : Nat) : (2 : ℝ) ^ (k : Int) = 2 ^ k := zpow_natCast 2 k
  have large' : (2 : ℝ) ^ ((44 : Nat) : Int) ≤ |t| := by
    have apart := abs_sub_abs_le_abs_sub r t
    rw [abs_sub_comm] at near
    rw [power]
    norm_num at large near ⊢
    linarith
  obtain ⟨n, rfl⟩ := right.multiple large'
  obtain ⟨m, rfl⟩ := left.multiple (k := (44 : Nat)) ((power 44).le.trans (le_trans (by norm_num) large))
  have unit : (2 : ℝ) ^ (((44 : Nat) : Int) - 52) = 1 / 256 := by norm_num
  rw [unit] at near ⊢
  have less : |((n - m : Int) : ℝ)| < 1 := by
    have scaled : |((n - m : Int) : ℝ)| * (1 / 256) ≤ 1 / 10 ^ 4 := by
      rw [← abs_of_pos (by norm_num : (0 : ℝ) < 1 / 256), ← abs_mul]
      push_cast
      rw [sub_mul]
      simpa using near
    norm_num at scaled
    push_cast
    linarith
  have same : n = m := sub_eq_zero.mp (Int.abs_lt_one_iff.mp (by exact_mod_cast less))
  rw [same]

/-- Percentages that read back to a hundredth are those that dividing and multiplying keeps. -/
theorem percent_close_iff (settles : Settles x f) : Close x (f / 100.0 * 100.0) ↔ KeepsPercent x := by
  obtain ⟨r, t, denotes, stands, near, -⟩ := settles
  by_cases small : |r| < 2 ^ 45
  · refine iff_of_true ?_ (.small r denotes small)
    have bound : |t| ≤ 2 ^ 45 + 1 := by
      have apart := abs_sub_abs_le_abs_sub t r
      norm_num at near
      linarith
    obtain ⟨s, back, moved⟩ := percent_moved stands bound
    rw [close_iff denotes back, abs_sub_comm]
    have sum := abs_sub_le s t r
    norm_num at near
    linarith
  · -- Such a large percentage is written exactly.
    have large := not_lt.mp small
    have same := eq_of_large denotes.isDouble stands.isDouble large near
    subst same
    have nonzero : t ≠ 0 := by
      rintro rfl
      norm_num at large
    have keeps : KeepsPercent x ↔ Close x (x / 100.0 * 100.0) := by
      refine ⟨?_, .near⟩
      intro keeps
      cases keeps with
      | small r other less => exact absurd (denotes.unique other ▸ less) small
      | near close => exact close
    rw [keeps, stands.div_eq denotes nonzero]

end Retouch.Style
