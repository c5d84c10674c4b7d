import Retouch.Proofs.Number.Exact

/-!
# Doubles that are numbers

What is computed from numbers can be no number: infinity times zero, zero divided by zero, or one infinity by another.
None of these comes about where the second factor, or the divisor, is a finite number other than zero. Doubles that are
numbers, finite or not, are compared as the numbers that they stand for, so that the usual laws hold of them; what is
no number is neither equal to anything nor above or below it.

## Main statements

* `IsNumber.mul`, `IsNumber.div`: products and quotients with such a number are numbers.
* `isNumber_ofDecimal`: every numeral denotes a number.
* `not_lt_of_le`: what is at most another number is not above it.
* `le_iff_value`, `beq_iff_value`: comparing doubles is comparing their numbers.
* `beq_iff_le`, `le_of_le_of_le`, `beq_trans`: laws that hold of all doubles.
-/
namespace Retouch.Number

open Float.Model Float.Model.UnpackedFloat

/-- The double is a number, finite or not. -/
def IsNumber (x : Float) : Prop := reading x ≠ .nan

/-- The double is a finite number other than zero. -/
def IsFactor (x : Float) : Prop := ∃ b, reading x = .finite b ∧ 0 < b.mantissa

instance (x : Float) : Decidable (IsNumber x) := inferInstanceAs (Decidable (_ ≠ _))

instance (x : Float) : Decidable (IsFactor x) :=
  match shown : reading x with
  | .finite b => decidable_of_iff (0 < b.mantissa)
    ⟨fun positive => ⟨b, shown, positive⟩, fun ⟨_, same, positive⟩ => by rw [shown] at same; cases same; exact positive⟩
  | .nan => .isFalse fun ⟨_, other, _⟩ => by rw [shown] at other; cases other
  | .infinite _ => .isFalse fun ⟨_, other, _⟩ => by rw [shown] at other; cases other

theorem ofUnpacked_eq_nan_iff (u : UnpackedFloat) : Reading.ofUnpacked u = .nan ↔ u = .notANumber := by
  cases u <;> simp [Reading.ofUnpacked]

theorem isNumber_iff (x : Float) : IsNumber x ↔ x.toModel.unpack ≠ .notANumber := by
  rw [IsNumber, reading_eq, ne_eq, ofUnpacked_eq_nan_iff]

/-! ### Packing and rounding -/

theorem unpack_packComponents {s : Sign} {exponent : BitVec 11} {mantissa : BitVec 52}
    (plain : exponent = -1#11 → mantissa = 0#52) :
    UnpackedFloat.unpack Format.binary64 (packComponents Format.binary64 s exponent mantissa) ≠ .notANumber := by
  unfold UnpackedFloat.unpack
  simp only [unpackExponent_packComponents, unpackMantissa_packComponents]
  split
  -- Only the largest exponent is that of infinity and of what is no number, by the mantissa.
  · rename_i top
    rw [if_pos (plain top)]
    simp
  · split
    · split <;> simp
    · simp

/-- A number stays one when it is packed. -/
theorem isNumber_pack {u : UnpackedFloat} (known : u ≠ .notANumber) : IsNumber (.ofModel (Float.Model.pack u)) := by
  rw [IsNumber, reading_ofModel, ne_eq, ofUnpacked_eq_nan_iff]
  have bias : Format.binary64.exponentBias = 1023 := rfl
  cases u with
  | notANumber => exact absurd rfl known
  | infinity s => exact unpack_packComponents fun _ => rfl
  | zero s => exact unpack_packComponents fun _ => rfl
  | finite s m e positive =>
    unfold UnpackedFloat.pack
    simp only [bias]
    split
    · exact unpack_packComponents fun _ => rfl
    · rename_i small
      split
      -- A normal double has a smaller exponent than the largest one.
      · refine unpack_packComponents fun top => absurd (congrArg BitVec.toNat top) ?_
        rw [BitVec.toNat_ofNat]
        simp
        omega
      · exact unpack_packComponents fun top => absurd top (by decide)

theorem roundWithAccuracy_ne_nan (s : Sign) (m : Nat) (e : Int) (accuracy : Accuracy) :
    roundWithAccuracy Format.binary64 s m e accuracy ≠ .notANumber := by
  unfold roundWithAccuracy
  dsimp only
  split <;> simp

/-! ### Products and quotients -/

variable {x y : Float}

theorem IsFactor.unpack (factor : IsFactor y) : ∃ s m e positive, y.toModel.unpack = .finite s m e positive := by
  obtain ⟨b, read, positive⟩ := factor
  obtain ⟨s, -, unpacked⟩ := unpack_of_reading read positive
  exact ⟨s, _, _, positive, unpacked⟩

theorem IsNumber.mul (known : IsNumber x) (factor : IsFactor y) : IsNumber (x * y) := by
  obtain ⟨s, m, e, positive, unpacked⟩ := factor.unpack
  rw [isNumber_iff] at known
  rw [unpack_mul, unpacked]
  refine isNumber_pack ?_
  cases there : x.toModel.unpack with
  | notANumber => exact absurd there known
  | infinity => simp [UnpackedFloat.mul]
  | zero => simp [UnpackedFloat.mul]
  | finite => exact roundWithAccuracy_ne_nan _ _ _ _

theorem IsNumber.div (known : IsNumber x) (factor : IsFactor y) : IsNumber (x / y) := by
  obtain ⟨s, m, e, positive, unpacked⟩ := factor.unpack
  rw [isNumber_iff] at known
  have quotient : x / y = .ofModel (Float.Model.pack
    (UnpackedFloat.div Format.binary64 x.toModel.unpack y.toModel.unpack)) := rfl
  rw [quotient, unpacked]
  refine isNumber_pack ?_
  cases there : x.toModel.unpack with
  | notANumber => exact absurd there known
  | infinity => simp [UnpackedFloat.div]
  | zero => simp [UnpackedFloat.div]
  | finite => exact roundWithAccuracy_ne_nan _ _ _ _

theorem IsNumber.neg (known : IsNumber x) : IsNumber (-x) := by
  rw [isNumber_iff] at known
  have opposite : -x = .ofModel (Float.Model.pack x.toModel.unpack.neg) := rfl
  rw [opposite]
  refine isNumber_pack ?_
  cases there : x.toModel.unpack with
  | notANumber => exact absurd there known
  | _ => simp [UnpackedFloat.neg]

/-! ### Numerals -/

theorem isNumber_toFloat (n : UInt64) : IsNumber n.toFloat := by
  have packed : n.toFloat = .ofModel (Float.Model.pack (UnpackedFloat.ofNat Format.binary64 n.toNat)) := rfl
  rw [packed]
  refine isNumber_pack ?_
  unfold UnpackedFloat.ofNat UnpackedFloat.ofInt UnpackedFloat.normalize
  split
  · exact roundWithAccuracy_ne_nan _ _ _ _
  · simp
  · exact roundWithAccuracy_ne_nan _ _ _ _

theorem isFactor_powerOfTen {y : Float} (member : y ∈ Float.exactlyRepresentablePowersOfTen) : IsFactor y := by
  have each : ∀ y ∈ Float.exactlyRepresentablePowersOfTen.toList, IsFactor y := by decide +kernel
  exact each y (Array.mem_toList_iff.mpr member)

theorem ofScientific_ne_nan (digits : Nat) (exponent : Int) :
    UnpackedFloat.ofScientific Format.binary64 digits exponent ≠ .notANumber := by
  unfold UnpackedFloat.ofScientific
  split
  · simp
  split
  · simp
  split
  · simp
  split
  · exact roundWithAccuracy_ne_nan _ _ _ _
  · exact roundWithAccuracy_ne_nan _ _ _ _

theorem isNumber_ofScientific (digits : Nat) (down : Bool) (exponent : Nat) :
    IsNumber (Float.ofScientific digits down exponent) := by
  unfold Float.ofScientific
  split
  · rename_i small
    have bound : exponent < Float.exactlyRepresentablePowersOfTen.size := by
      simp [Float.exactlyRepresentablePowersOfTen]
      omega
    have power := isFactor_powerOfTen (Array.getElem_mem bound)
    split
    · exact (isNumber_toFloat _).div power
    · exact (isNumber_toFloat _).mul power
  · exact isNumber_pack (ofScientific_ne_nan _ _)

theorem isNumber_ofNat (n : Nat) : IsNumber (ofNat n) := isNumber_ofScientific n false 0

/-- Every numeral denotes a number, which can be infinite. -/
theorem isNumber_ofDecimal (digits count : Nat) (exponent : Int) : IsNumber (ofDecimal digits count exponent) := by
  unfold ofDecimal
  split
  · decide +kernel
  · split
    · exact isNumber_ofScientific _ _ _
    · split
      · decide +kernel
      · split <;> exact isNumber_ofScientific _ _ _

/-! ### Comparing -/

theorem compare_swap (u v : UnpackedFloat) : v.compare u = (u.compare v).map Ordering.swap := by
  cases u with
  | notANumber => cases v <;> simp [UnpackedFloat.compare]
  | infinity s =>
    cases v with
    | infinity s' => cases s <;> cases s' <;> rfl
    | _ => cases s <;> simp [UnpackedFloat.compare]
  | zero s =>
    cases v with
    | infinity s' => cases s' <;> simp [UnpackedFloat.compare]
    | finite s' => cases s' <;> simp [UnpackedFloat.compare]
    | _ => simp [UnpackedFloat.compare]
  | finite s m e =>
    cases v with
    | infinity s' => cases s' <;> cases s <;> simp [UnpackedFloat.compare]
    | finite s' m' e' =>
      have digits : ((compare e e').then (compare m m')).swap = (compare e' e).then (compare m' m) := by
        have exponents : compare e' e = (compare e e').swap := Std.OrientedCmp.eq_swap
        have mantissas : compare m' m = (compare m m').swap := Std.OrientedCmp.eq_swap
        rw [Ordering.swap_then, exponents, mantissas]
      cases s' <;> cases s <;> simp [UnpackedFloat.compare, digits]
    | zero s' => cases s <;> simp [UnpackedFloat.compare]
    | notANumber => cases s <;> simp [UnpackedFloat.compare]

theorem lt_iff_compare : x < y ↔ x.toModel.unpack.compare y.toModel.unpack = some .lt := by
  have lt : x < y ↔ x.toModel.unpack.lt y.toModel.unpack = true := decide_eq_true_iff
  rw [lt, UnpackedFloat.lt, beq_iff_eq]

theorem le_iff_compare : x ≤ y ↔ ∃ order, x.toModel.unpack.compare y.toModel.unpack = some order ∧ order.isLE := by
  have le : x ≤ y ↔ x.toModel.unpack.le y.toModel.unpack = true := decide_eq_true_iff
  rw [le, UnpackedFloat.le, Option.any_eq_true]

theorem le_of_lt (less : x < y) : x ≤ y :=
  le_iff_compare.mpr ⟨.lt, lt_iff_compare.mp less, rfl⟩

/-- What is at most another number is not above it. -/
theorem not_lt_of_le (most : x ≤ y) : ¬y < x := by
  obtain ⟨order, compared, isLE⟩ := le_iff_compare.mp most
  rw [lt_iff_compare, compare_swap, compared]
  cases order <;> simp_all

/-! ### Comparing -/

section Order

variable {x y z : Float} {v w : EReal}

theorem exists_value?_iff : (∃ v, (reading x).value? = some v) ↔ IsNumber x := by
  unfold IsNumber
  cases reading x <;> simp [Reading.value?]

theorem beq_iff_compare : (x == y) = true ↔ x.toModel.unpack.compare y.toModel.unpack = some .eq := by
  have unfolded : (x == y) = (x.toModel.unpack.compare y.toModel.unpack == some .eq) := rfl
  rw [unfolded, beq_iff_eq]

/-- Two doubles are compared just if both are numbers. -/
theorem exists_compare_iff :
    (∃ order, x.toModel.unpack.compare y.toModel.unpack = some order) ↔ IsNumber x ∧ IsNumber y := by
  rw [isNumber_iff, isNumber_iff]
  generalize x.toModel.unpack = u
  generalize y.toModel.unpack = u'
  cases u with
  | notANumber => simp [UnpackedFloat.compare]
  | infinity s =>
    cases u' with
    | infinity s' => cases s <;> cases s' <;> simp [UnpackedFloat.compare]
    | _ => cases s <;> simp [UnpackedFloat.compare]
  | zero s =>
    cases u' with
    | infinity s' | finite s' => cases s' <;> simp [UnpackedFloat.compare]
    | _ => simp [UnpackedFloat.compare]
  | finite s =>
    cases u' with
    | infinity s' | finite s' => cases s <;> cases s' <;> simp [UnpackedFloat.compare]
    | _ => cases s <;> simp [UnpackedFloat.compare]

/-- Two doubles that are compared stand for numbers, and the order is that of these. -/
theorem compare_iff {order : Ordering} (left : (reading x).value? = some v) (right : (reading y).value? = some w) :
    x.toModel.unpack.compare y.toModel.unpack = some order ↔ compare v w = order := by
  obtain ⟨found, compared⟩ := exists_compare_iff.mpr
    ⟨exists_value?_iff.mp ⟨v, left⟩, exists_value?_iff.mp ⟨w, right⟩⟩
  have below := lt_iff_value left right
  have above := lt_iff_value right left
  rw [lt_iff_compare, compared] at below
  rw [lt_iff_compare, compare_swap, compared] at above
  rw [compared, Option.some.injEq]
  suffices same : compare v w = found by rw [same]
  cases found with
  | lt => exact compare_lt_iff_lt.mpr (below.mp rfl)
  | eq => exact compare_eq_iff_eq.mpr (le_antisymm (not_lt.mp (mt above.mpr nofun)) (not_lt.mp (mt below.mpr nofun)))
  | gt => exact compare_gt_iff_gt.mpr (above.mp rfl)

theorem beq_iff_value (left : (reading x).value? = some v) (right : (reading y).value? = some w) :
    (x == y) = true ↔ v = w := by
  rw [beq_iff_compare, compare_iff left right, compare_eq_iff_eq]

theorem le_iff_value (left : (reading x).value? = some v) (right : (reading y).value? = some w) :
    x ≤ y ↔ v ≤ w := by
  simp only [le_iff_compare, compare_iff left right, exists_eq_left', ← Ordering.ne_gt_iff_isLE, compare_le_iff_le]

/-! ### Laws -/

theorem known_of_le (most : x ≤ y) : IsNumber x ∧ IsNumber y := by
  obtain ⟨order, compared, -⟩ := le_iff_compare.mp most
  exact exists_compare_iff.mp ⟨order, compared⟩

theorem known_of_beq (same : (x == y) = true) : IsNumber x ∧ IsNumber y :=
  exists_compare_iff.mp ⟨.eq, beq_iff_compare.mp same⟩

theorem beq_iff_le : (x == y) = true ↔ x ≤ y ∧ y ≤ x := by
  constructor
  · intro same
    obtain ⟨⟨v, left⟩, ⟨w, right⟩⟩ := (known_of_beq same).imp exists_value?_iff.mpr exists_value?_iff.mpr
    rw [le_iff_value left right, le_iff_value right left, ← le_antisymm_iff]
    exact (beq_iff_value left right).mp same
  · rintro ⟨most, least⟩
    obtain ⟨⟨v, left⟩, ⟨w, right⟩⟩ := (known_of_le most).imp exists_value?_iff.mpr exists_value?_iff.mpr
    rw [le_iff_value left right] at most
    rw [le_iff_value right left] at least
    exact (beq_iff_value left right).mpr (le_antisymm most least)

theorem le_of_le_of_le (most : x ≤ y) (most' : y ≤ z) : x ≤ z := by
  obtain ⟨⟨u, first⟩, ⟨v, second⟩⟩ := (known_of_le most).imp exists_value?_iff.mpr exists_value?_iff.mpr
  obtain ⟨w, third⟩ := exists_value?_iff.mpr (known_of_le most').2
  rw [le_iff_value first second] at most
  rw [le_iff_value second third] at most'
  exact (le_iff_value first third).mpr (most.trans most')

/-- Of two numbers one is at most the other. -/
theorem le_or_ge (left : IsNumber x) (right : IsNumber y) : x ≤ y ∨ y ≤ x := by
  obtain ⟨v, left⟩ := exists_value?_iff.mpr left
  obtain ⟨w, right⟩ := exists_value?_iff.mpr right
  rw [le_iff_value left right, le_iff_value right left]
  exact le_total v w

theorem beq_self (known : IsNumber x) : (x == x) = true := by
  obtain ⟨v, value⟩ := exists_value?_iff.mpr known
  exact (beq_iff_value value value).mpr rfl

theorem beq_symm (same : (x == y) = true) : (y == x) = true :=
  beq_iff_le.mpr (beq_iff_le.mp same).symm

theorem beq_trans (same : (x == y) = true) (same' : (y == z) = true) : (x == z) = true := by
  obtain ⟨most, least⟩ := beq_iff_le.mp same
  obtain ⟨most', least'⟩ := beq_iff_le.mp same'
  exact beq_iff_le.mpr ⟨le_of_le_of_le most most', le_of_le_of_le least' least⟩

end Order

end Retouch.Number
