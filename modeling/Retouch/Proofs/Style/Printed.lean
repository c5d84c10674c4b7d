import Retouch.Proofs.Style.ColorTrip
import Retouch.Proofs.Style.WellFormed

/-!
# Values that are printed

When a value has a text, and what a color shows under the function of another space.

A number that is not finite has a text without decimals, so only two things can be missing from a text: a byte of a
code, for a channel that is so large that it leaves the range of doubles on its way to a byte, and a decimal beyond
those that can be asked for. A color that cannot be brought to the space of its format is written with the channels
that it has. In the gamut of `srgb` that does not happen on the way to `hsl`: the divisors are sums and differences of
channels, which are rounded to no less than their half.

## Main statements

* `Value.write_ok_iff`: which values have a text.
* `Color.write_in_space_iff`: when the channels of a text are those of a color in the space of the format.
* `srgbToHsl_of_inGamut`: colors in the gamut have a hue, a saturation and a lightness.
-/
namespace Retouch.Style

open Retouch.Text Retouch.Number

variable {α β : Type} {x y : Float} {r s u v : ℝ} {places : Nat}

/-! ### Results -/

/-- There is a result. -/
def Given (result : Except WriteError α) : Prop := ∃ a, result = .ok a

@[simp] theorem given_ok (a : α) : Given (.ok a) := ⟨a, rfl⟩

@[simp] theorem given_pure (a : α) : Given (pure a : Except WriteError α) := ⟨a, rfl⟩

@[simp] theorem not_given_error (e : WriteError) : ¬Given (.error e : Except WriteError α) := by
  rintro ⟨a, same⟩
  cases same

/-- Where it does not depend on the first result whether there is a second one, both have to be there. -/
theorem given_bind {first : Except WriteError α} {next : α → Except WriteError β} {p : Prop}
    (late : ∀ a, Given (next a) ↔ p) : Given (first >>= next) ↔ Given first ∧ p := by
  -- An error in the first part ends the run, so nothing is asked of the second one there.
  cases first with
  | error e => exact iff_of_false (not_given_error e) fun both => not_given_error e both.1
  | ok a => exact (late a).trans (by simp)

theorem given_map {first : Except WriteError α} {f : α → β} : Given (first >>= fun a => pure (f a)) ↔ Given first := by
  rw [given_bind fun a => iff_true_intro (given_pure (f a)), and_true]

/-! ### Numbers -/

/-- The numbers can be written with so many decimals. -/
def Printable (places : Nat) (numbers : List Float) : Prop := placesLimit < places → ∀ x ∈ numbers, ¬IsNonzero x

@[simp] theorem printable_nil : Printable places [] := fun _ _ none => by cases none

@[simp] theorem printable_append {front back : List Float} :
    Printable places (front ++ back) ↔ Printable places front ∧ Printable places back := by
  simp only [Printable, List.forall_mem_append, imp_and]

theorem printable_cons {rest : List Float} :
    Printable places (x :: rest) ↔ Printable places [x] ∧ Printable places rest := by
  rw [← printable_append, List.singleton_append]

theorem printable_flatMap {items : List α} {numbers : α → List Float} :
    Printable places (items.flatMap numbers) ↔ ∀ item ∈ items, Printable places (numbers item) := by
  induction items with
  | nil => simp
  | cons item rest ih => rw [List.flatMap_cons, printable_append, ih, List.forall_mem_cons]

/-- Numbers that are not finite are written whatever the decimals. -/
theorem given_writeNumber : Given (writeNumber places x) ↔ Printable places [x] := by
  have only : Printable places [x] ↔ ¬(placesLimit < places ∧ IsNonzero x) := by simp [Printable]
  -- The limit is asked for finite numbers only; the others have a word.
  rw [only]
  by_cases finite : IsFinite x
  · rcases writeNumber_cases finite places with ⟨⟨figures, written, -⟩, within⟩ | ⟨failed, beyond⟩
    · exact iff_of_true ⟨_, written⟩ within
    · rw [failed]
      exact iff_of_false (not_given_error _) (not_not.mpr beyond)
  · refine iff_of_true ?_ fun ⟨_, b, read, _⟩ => finite ⟨b, read⟩
    unfold writeNumber fixedText
    cases read : reading x with
    | finite b => exact absurd ⟨b, read⟩ finite
    | nan => exact given_ok _
    | infinite negative => exact given_ok _

theorem printable_channels {c : Channels} : Printable places c.toList ↔
    Printable places [c.first] ∧ Printable places [c.second] ∧ Printable places [c.third] := by
  rw [Channels.toList, printable_cons, printable_cons (x := c.second)]

theorem given_writeChannels {c : Channels} : Given (writeChannels places c) ↔ Printable places c.toList := by
  rw [printable_channels]
  unfold writeChannels
  refine (given_bind fun a => ?_).trans (and_congr_left' given_writeNumber)
  refine (given_bind fun b => ?_).trans (and_congr_left' given_writeNumber)
  exact given_map.trans given_writeNumber

/-- The opacity, where it is written. -/
def shownOpacity (alpha : Float) : List Float := if 1.0 ≤ alpha then [] else [alpha]

theorem given_alphaPart {alpha : Float} : Given (alphaPart places alpha) ↔ Printable places (shownOpacity alpha) := by
  unfold alphaPart shownOpacity
  split
  · exact iff_of_true (given_ok _) printable_nil
  · exact given_map.trans given_writeNumber

/-! ### Bytes -/

theorem given_nearestInt : Given (nearestInt x) ↔ IsFinite x := by
  unfold nearestInt IsFinite
  cases reading x <;> simp

/-- The number halfway between the largest double and the power of two that comes next is no double times 255. -/
theorem abs_mul_byte_ne (denotes : Denotes x r) : |r * 255| ≠ 2 ^ 1024 - 2 ^ 970 := by
  intro same
  have limit : (2 : ℝ) ^ 1024 - 2 ^ 970 = (2 ^ 61 - 2 ^ 7) * 2 ^ 963 := by rw [sub_mul, ← pow_add, ← pow_add]
  have large : (2 : ℝ) ^ (1015 : Int) = 2 ^ 52 * 2 ^ 963 := by
    rw [show (1015 : Int) = ((1015 : Nat) : Int) from rfl, zpow_natCast, ← pow_add]
  have positive : (0 : ℝ) < 2 ^ 963 := by positivity
  have step : (2 : ℝ) ^ ((1015 : Int) - 52) = 2 ^ 963 := zpow_natCast 2 963
  rw [abs_mul, abs_of_pos (by norm_num : (0 : ℝ) < 255), limit] at same
  have multiple := denotes.isDouble.multiple (k := 1015)
  rw [large, step] at multiple
  clear limit large step
  generalize (2 : ℝ) ^ 963 = unit at *
  -- A double of that size is an integer times the unit, and the product is none with a factor of 255.
  obtain ⟨n, rfl⟩ := multiple (by linarith)
  rw [abs_mul, abs_of_pos positive] at same
  have digits : |(n : ℝ)| * 255 + 2 ^ 7 = 2 ^ 61 := by
    refine mul_right_cancel₀ positive.ne' ?_
    linarith
  rw [← Int.cast_abs, ← Int.natCast_natAbs] at digits
  have digits : n.natAbs * 255 + 2 ^ 7 = 2 ^ 61 := by exact_mod_cast digits
  omega

/-- A share whose product with 255 is finite: it is less than about 7e305. -/
inductive HasByte (x : Float) : Prop
  | of (r : ℝ) (denotes : Denotes x r) (small : |r * 255| < 2 ^ 1024 - 2 ^ 970)

theorem hasByte_of_abs_le (denotes : Denotes x r) (small : |r| ≤ 2 ^ 962) : HasByte x := by
  refine ⟨r, denotes, ?_⟩
  have scaled : (2 : ℝ) ^ 970 = 2 ^ 962 * 2 ^ 8 := pow_add 2 962 8
  have room : (2 : ℝ) ^ 970 * 2 ≤ 2 ^ 1024 := by
    rw [← pow_succ]
    exact pow_le_pow_right₀ (by norm_num) (by norm_num)
  have unit : (0 : ℝ) < 2 ^ 962 := by positivity
  rw [abs_mul, abs_of_pos (by norm_num : (0 : ℝ) < 255)]
  generalize (2 : ℝ) ^ 962 = least at *
  generalize (2 : ℝ) ^ 970 = step at *
  generalize (2 : ℝ) ^ 1024 = limit at *
  linarith

theorem given_hexPair : Given (hexPair x) ↔ HasByte x := by
  unfold hexPair
  refine given_map.trans (given_nearestInt.trans ?_)
  constructor
  · intro finite
    obtain ⟨s, product⟩ := denotes_of_isFinite finite
    obtain ⟨r, denotes⟩ := denotes_of_product (by decide +kernel : IsFactor 255.0) product
    exact ⟨r, denotes, ((computes_share denotes).denotes_iff (abs_mul_byte_ne denotes)).mp ⟨s, product⟩⟩
  · rintro ⟨r, denotes, small⟩
    obtain ⟨s, product⟩ := ((computes_share denotes).denotes_iff (abs_mul_byte_ne denotes)).mpr small
    exact isFinite_of_denotes product

/-! ### Colors -/

/-- The space whose channels a format shows. -/
def ColorFormat.space : ColorFormat → ColorSpace
  | .hex => .srgb
  | .rgb => .srgb
  | .hsl => .hsl
  | .oklch => .oklch
  | .oklab => .oklab

namespace Color

/-- The format that a color has without a choice; `display-p3` has a function of its own. -/
def nativeFormat? (color : Color) : Option ColorFormat :=
  match color.space with
  | .srgb => some (if 1.0 ≤ color.alpha then .hex else .rgb)
  | .hsl => some .hsl
  | .oklch => some .oklch
  | .oklab => some .oklab
  | .displayP3 => none

/-- The shares that have to be brought to bytes, which a code has. -/
def shares (color : Color) (format : Option ColorFormat) : List Float :=
  match format.or color.nativeFormat? with
  | some .hex => (color.convert .srgb).channels.toList
  | _ => []

/-- The numbers that are written with decimals, which the functions have. -/
def decimals (color : Color) (format : Option ColorFormat) : List Float :=
  match format.or color.nativeFormat? with
  | some .hex => []
  | some .rgb => ((color.convert .srgb).channels.map clampByte).toList ++ shownOpacity color.alpha
  | some format => (color.convert format.space).channels.toList ++ shownOpacity color.alpha
  | none => color.channels.toList ++ shownOpacity color.alpha

/-- An opacity below one that passes its check has a byte. -/
theorem isFinite_opacity {alpha : Float} (inside : Wire.Inside alpha) (below : alpha < 1.0) :
    IsFinite (alpha * 255.0) := by
  obtain ⟨r, denotes, least, most⟩ := denotes_of_within inside.2 (Number.le_of_lt below)
  obtain ⟨s, product, -⟩ := (computes_share denotes).within_power (k := 8) (by norm_num)
    (by rw [abs_of_nonneg (by linarith)]; linarith)
  exact isFinite_of_denotes product

theorem given_writeHex {color : Color} (inside : Wire.Inside color.alpha) :
    Given color.writeHex ↔ ∀ x ∈ (color.convert .srgb).channels.toList, HasByte x := by
  have parts : ∀ c : Channels, (∀ x ∈ c.toList, HasByte x) ↔ HasByte c.first ∧ HasByte c.second ∧ HasByte c.third := by
    simp [Channels.toList]
  rw [parts]
  unfold writeHex
  refine (given_bind fun r => ?_).trans (and_congr_left' given_hexPair)
  refine (given_bind fun g => ?_).trans (and_congr_left' given_hexPair)
  refine (given_bind fun b => iff_true_intro ?_).trans ((and_true _).to_iff.trans given_hexPair)
  rw [convert_alpha]
  split
  · exact given_map.mpr (given_nearestInt.mpr (isFinite_opacity inside ‹_›))
  · exact given_pure _

theorem given_writeRgb {color : Color} : Given (color.writeRgb places) ↔
    Printable places (((color.convert .srgb).channels.map clampByte).toList ++ shownOpacity color.alpha) := by
  unfold writeRgb
  dsimp only
  rw [printable_append, convert_alpha]
  refine (given_bind fun channels => ?_).trans (and_congr_left' given_writeChannels)
  exact given_map.trans given_alphaPart

theorem given_writeHsl {color : Color} : Given (color.writeHsl places) ↔
    Printable places ((color.convert .hsl).channels.toList ++ shownOpacity color.alpha) := by
  unfold writeHsl
  dsimp only
  rw [printable_append, convert_alpha, printable_channels, and_assoc, and_assoc]
  refine (given_bind fun h => ?_).trans (and_congr_left' given_writeNumber)
  refine (given_bind fun s => ?_).trans (and_congr_left' given_writeNumber)
  refine (given_bind fun l => ?_).trans (and_congr_left' given_writeNumber)
  exact given_map.trans given_alphaPart

theorem given_writeFunction {color : Color} (space : ColorSpace) : Given (color.writeFunction places space) ↔
    Printable places ((color.convert space).channels.toList ++ shownOpacity color.alpha) := by
  unfold writeFunction
  dsimp only
  rw [printable_append, convert_alpha]
  refine (given_bind fun channels => ?_).trans (and_congr_left' given_writeChannels)
  exact given_map.trans given_alphaPart

/-- Without a choice a color is written in its native format. -/
theorem writeNative_eq (color : Color) (places : Int) : color.writeNative places =
    match color.nativeFormat? with
    | some format => color.write (some format) places
    | none => do
      let channels ← writeChannels places color.channels
      return "color(" ++ color.space.name ++ " " ++ channels ++ (← alphaPart places color.alpha) ++ ")" := by
  unfold writeNative nativeFormat?
  cases color.space <;> try rfl
  dsimp only
  split <;> rfl

/-- A color has a text just if its channels have the bytes of a code, or its numbers the decimals of a function. -/
theorem given_write {color : Color} (inside : Wire.Inside color.alpha) (format : Option ColorFormat) :
    Given (color.write format places) ↔
      (∀ x ∈ color.shares format, HasByte x) ∧ Printable places (color.decimals format) := by
  -- A color without a choice is written in a format too, but for `display-p3`.
  have chosen (format : ColorFormat) : Given (color.write (some format) places) ↔
      (∀ x ∈ color.shares (some format), HasByte x) ∧ Printable places (color.decimals (some format)) := by
    unfold shares decimals
    cases format with
    | hex => simpa [write] using given_writeHex inside
    | rgb => simpa [write] using given_writeRgb
    | hsl => simpa [write, ColorFormat.space] using given_writeHsl
    | oklch => simpa [write, ColorFormat.space] using given_writeFunction .oklch
    | oklab => simpa [write, ColorFormat.space] using given_writeFunction .oklab
  cases format with
  | some format => exact chosen format
  | none =>
    have native : color.write none places = color.writeNative places := rfl
    rw [native, writeNative_eq]
    cases known : color.nativeFormat? with
    | some format => simpa [shares, decimals, known] using chosen format
    | none =>
      simp only [shares, decimals, known, Option.or_none, List.not_mem_nil, false_implies, implies_true, true_and,
        printable_append]
      refine (given_bind fun channels => ?_).trans (and_congr_left' given_writeChannels)
      exact given_map.trans given_alphaPart

end Color

/-! ### Values -/

namespace Value

mutual

/-- The colors of a value. -/
def colors : Value → List Color
  | .unit _ _ => []
  | .number _ => []
  | .keyword _ => []
  | .color c => [c]
  | .var _ none => []
  | .var _ (some fallback) => colors fallback
  | .tuple values => colorsOfAll values
  | .unparsed _ => []
termination_by structural value => value

def colorsOfAll : List Value → List Color
  | [] => []
  | value :: rest => colors value ++ colorsOfAll rest
termination_by structural values => values

end

section Write

variable (options : WriteOptions)

/-- Each number and each color among these can be written. -/
def Writable (numbers : List Float) (colors : List Color) : Prop :=
  (∀ x ∈ numbers, Given (writeNumber options.places x)) ∧
    ∀ color ∈ colors, Given (color.write options.format options.places)

theorem writable_append {numbers others : List Float} {colors more : List Color} :
    Writable options (numbers ++ others) (colors ++ more) ↔
      Writable options numbers colors ∧ Writable options others more := by
  simp only [Writable, List.forall_mem_append]
  exact and_and_and_comm

mutual

/-- Values are written just if all that stands in them is. -/
theorem given_write : (value : Value) →
    (Given (value.write options) ↔ Writable options value.numbers value.colors)
  | .unit size u => by
    rw [write]
    refine given_map.trans ?_
    simp [Writable, numbers, colors]
  | .number x => by simp [write, Writable, numbers, colors]
  | .keyword text => by simp [write, Writable, numbers, colors]
  | .unparsed text => by simp [write, Writable, numbers, colors]
  | .color c => by simp [write, Writable, numbers, colors]
  | .var name none => by simp [write, Writable, numbers, colors]
  | .var name (some fallback) => by
    rw [write]
    exact given_map.trans (given_write fallback)
  | .tuple values => by
    rw [write]
    refine (given_bind (p := True) fun texts => iff_true_intro ?_).trans ?_
    · split <;> exact given_pure _
    · rw [and_true]
      exact given_writeAll values
termination_by structural value => value

theorem given_writeAll : (values : List Value) →
    (Given (writeAll options values) ↔ Writable options (numbersOfAll values) (colorsOfAll values))
  | [] => by simp [writeAll, Writable, numbersOfAll, colorsOfAll]
  | value :: rest => by
    rw [writeAll, numbersOfAll, colorsOfAll, writable_append]
    refine (given_bind fun text => ?_).trans (and_congr_left' (given_write value))
    exact given_map.trans (given_writeAll rest)
termination_by structural values => values

end

end Write

/-- What reading a text gives, or what passes the checks of an object. -/
def Admitted (value : Value) : Prop :=
  (∃ property text, parse property text = value) ∨ ∃ input, Wire.value input = .ok value

theorem mem_colorsOfAll {values : List Value} {color : Color} :
    color ∈ colorsOfAll values ↔ ∃ value ∈ values, color ∈ value.colors := by
  induction values with
  | nil => simp [colorsOfAll]
  | cons value rest ih => simp [colorsOfAll, ih]

theorem inside_of_fits {levels : Nat} {value : Value} (fits : Wire.Fits levels value) :
    ∀ color ∈ value.colors, Wire.Inside color.alpha := by
  induction fits with
  | color c inside => simpa [colors] using inside
  | fallback name fits ih => exact ih
  | tuple fits ih =>
    intro color member
    obtain ⟨value, there, member⟩ := mem_colorsOfAll.mp member
    exact ih value there color member
  | _ => simp [colors]

theorem Admitted.inside {value : Value} (admitted : Admitted value) :
    ∀ color ∈ value.colors, Wire.Inside color.alpha := by
  rcases admitted with ⟨property, text, rfl⟩ | ⟨input, read⟩
  · exact inside_of_fits (fits_parse property text)
  · exact inside_of_fits (Wire.fits_of_read read)

/-- A value that was read has a text just if each channel of a code has a byte and each number its decimals. -/
theorem write_ok_iff {value : Value} (admitted : Admitted value) (places : Nat) (format : Option ColorFormat)
    (shorthand : Bool) : (∃ text, value.write ⟨places, format, shorthand⟩ = .ok text) ↔
      (∀ color ∈ value.colors, ∀ x ∈ color.shares format, HasByte x) ∧
        Printable places (value.numbers ++ value.colors.flatMap fun color => color.decimals format) := by
  rw [printable_append, printable_flatMap]
  refine (given_write ⟨places, format, shorthand⟩ value).trans ?_
  have numbers : (∀ x ∈ value.numbers, Given (writeNumber places x)) ↔ Printable places value.numbers := by
    simp only [given_writeNumber, Printable, List.mem_singleton, forall_eq]
    exact ⟨fun each beyond x member => each x member beyond, fun each x member beyond => each beyond x member⟩
  have colors : (∀ color ∈ value.colors, Given (color.write format places)) ↔
      ∀ color ∈ value.colors, (∀ x ∈ color.shares format, HasByte x) ∧ Printable places (color.decimals format) :=
    forall₂_congr fun color member => Color.given_write (admitted.inside color member) format
  rw [Writable, numbers, colors, forall₂_and]
  exact and_left_comm

/-- A code for a color behind the name of a variable. -/
theorem write_ok_shade : Admitted (.var "--shade" (some (.color ⟨.srgb, ⟨1.0, 0.0, 0.0⟩, 0.5⟩))) ∧
    ∃ text, (Value.var "--shade" (some (.color ⟨.srgb, ⟨1.0, 0.0, 0.0⟩, 0.5⟩))).write ⟨(3 : Nat), some .hex, true⟩ =
      .ok text := by
  have alpha : Wire.Inside 0.5 := by unfold Wire.Inside; decide +kernel
  have fits : Wire.Fits Wire.nestingLimit (.var "--shade" (some (.color ⟨.srgb, ⟨1.0, 0.0, 0.0⟩, 0.5⟩))) :=
    .fallback _ (.color _ alpha)
  have admitted : Admitted (.var "--shade" (some (.color ⟨.srgb, ⟨1.0, 0.0, 0.0⟩, 0.5⟩))) := .inr ⟨_, fits.read⟩
  refine ⟨admitted, (write_ok_iff admitted 3 (some .hex) true).mpr ⟨?_, ?_⟩⟩
  · intro color member x share
    have only : color = ⟨.srgb, ⟨1.0, 0.0, 0.0⟩, 0.5⟩ := by simpa [colors] using member
    subst only
    have kept : (⟨.srgb, ⟨1.0, 0.0, 0.0⟩, 0.5⟩ : Color).convert .srgb = ⟨.srgb, ⟨1.0, 0.0, 0.0⟩, 0.5⟩ := convert_self _
    rw [Color.shares, Option.some_or] at share
    dsimp only at share
    rw [kept] at share
    have ends : x = 1.0 ∨ x = 0.0 := by simpa [Channels.toList] using share
    rcases ends with rfl | rfl
    · exact hasByte_of_abs_le denotes_one (by rw [abs_one]; exact one_le_pow₀ (by norm_num))
    · exact hasByte_of_abs_le denotes_zero (by rw [abs_zero]; positivity)
  · intro beyond
    exact absurd beyond (by decide)

/-- A channel that is much too large has no byte, though any share above one is brought to 255. -/
theorem write_overflow :
    (∃ input, Wire.value input = .ok (.color ⟨.srgb, ⟨1e308, 0.0, 0.0⟩, 1.0⟩)) ∧
      (Value.color ⟨.srgb, ⟨1e308, 0.0, 0.0⟩, 1.0⟩).write {} = .error .infinite := by
  refine ⟨⟨_, (Wire.Fits.color _ ⟨?_, ?_⟩).read⟩, ?_⟩
  · decide +kernel
  · decide +kernel
  · decide +kernel

end Value

/-! ### Conversions in the gamut -/

theorem isFinite_of_sized {c : Channels} {i j k : Nat} (first : Sized c.first i) (second : Sized c.second j)
    (third : Sized c.third k) : c.isFinite = true := by
  have finite {x : Float} {k : Nat} (sized : Sized x k) : x.isFinite = true := by
    obtain ⟨r, denotes, -⟩ := sized
    have unfolded : x.isFinite = x.toModel.unpack.isFinite := rfl
    have unpacked := denotes.unpacked
    rw [unfolded]
    generalize x.toModel.unpack = u at *
    cases unpacked <;> rfl
  simp [Channels.isFinite, Channels.toList, finite first, finite second, finite third]

/-- A number of turns has a part that is no full turn. -/
theorem sized_wrapAround (denotes : Denotes x r) : Sized (wrapAround x 1) 54 := by
  obtain ⟨⟨negative, m, e⟩, read, -⟩ := denotes
  obtain ⟨⟨small, least, -⟩, -⟩ := canonical_of_reading read
  have zero : Sized 0.0 54 := ⟨0, denotes_zero, by rw [abs_zero]; positivity⟩
  unfold wrapAround
  rw [read]
  cases e with
  | ofNat up => simpa [Binary.scaled, Nat.mod_one] using zero
  | negSucc down =>
    have log : Nat.log2 (2 ^ (down + 1)) = down + 1 := Nat.log2_two_pow
    have digits : (m * 1 % (1 * 2 ^ (down + 1)) : Nat) < 2 ^ 53 := by
      rw [Nat.mul_one, Nat.one_mul]
      exact (Nat.mod_le _ _).trans_lt small
    dsimp only [Binary.scaled]
    simp only [Nat.pow_eq, pow_zero, log]
    generalize m * 1 % (1 * 2 ^ (down + 1)) = rest at *
    have rest_sized : Sized (Number.ofNat rest) 53 := by
      refine (computes_ofNat rest).sized (by norm_num) ?_
      rw [Nat.abs_cast]
      exact_mod_cast digits.le
    -- Each of the two divisors is a power of two that is a double.
    have few : down + 1 ≤ 1074 := by
      dsimp only at least
      omega
    have half := rest_sized.div (denotes_power (i := (down + 1) / 2) (by omega)) (one_le_pow₀ (by norm_num))
      (by norm_num)
    have size := half.div (denotes_power (i := down + 1 - (down + 1) / 2) (by omega)) (one_le_pow₀ (by norm_num))
      (by norm_num)
    split
    · exact zero
    split
    · have one := denotes_power (i := 0) (by norm_num)
      rw [pow_zero, pow_zero] at one
      exact Sized.sub ⟨1, one, by norm_num⟩ size (by norm_num)
    · exact size.mono (by norm_num)

/-- A difference is divided by one that is no smaller. -/
theorem divide?_gap (top : Computes x u) (bottom : Computes y v) (nonneg : 0 ≤ u) (le : u ≤ v) (positive : 0 < v)
    (most : v ≤ 2) (grid : OnGrid v) : ∃ q, divide? x y = some q ∧ Sized q 2 := by
  obtain ⟨r, stands, near, -⟩ := top.within_power (k := 1) (by norm_num) (by rw [abs_of_nonneg nonneg]; linarith)
  obtain ⟨s, stands', near', -⟩ := bottom.within_power (k := 1) (by norm_num) (by rw [abs_of_pos positive]; linarith)
  have half := near'.half_le grid positive
  have least := near.le_of_ge .zero nonneg
  -- Zero is a double too, so the difference is at most doubled.
  have twice : r ≤ 2 * u := by
    have closest := near.least 0 .zero
    rw [zero_sub, abs_neg, abs_of_nonneg nonneg] at closest
    linarith [le_abs_self (r - u)]
  have nonzero : s ≠ 0 := by linarith
  unfold divide?
  rw [if_neg (mt (stands'.beq_iff denotes_zero).mp nonzero)]
  refine ⟨_, rfl, (computes_div stands stands' nonzero).sized (by norm_num) ?_⟩
  rw [abs_of_nonneg (div_nonneg least (by linarith)), div_le_iff₀ (by linarith)]
  linarith

/-- Red, green and blue are between zero and one. -/
def Channels.InGamut (c : Channels) : Prop :=
  (0.0 ≤ c.first ∧ c.first ≤ 1.0) ∧ (0.0 ≤ c.second ∧ c.second ≤ 1.0) ∧ 0.0 ≤ c.third ∧ c.third ≤ 1.0

theorem denotes_two : Denotes 2.0 2 := ⟨⟨false, 2 ^ 52, -51⟩, by decide +kernel, by norm_num [Binary.value]⟩

theorem denotes_six : Denotes 6.0 6 := ⟨⟨false, 6 * 2 ^ 50, -50⟩, by decide +kernel, by norm_num [Binary.value]⟩

theorem sized_four : Sized 4.0 2 :=
  ⟨4, ⟨⟨false, 2 ^ 52, -50⟩, by decide +kernel, by norm_num [Binary.value]⟩, by norm_num⟩

theorem sized_turn : Sized 360.0 9 :=
  ⟨360, ⟨⟨false, 360 * 2 ^ 44, -44⟩, by decide +kernel, by norm_num [Binary.value]⟩, by norm_num⟩

theorem sized_hundred : Sized 100.0 7 := ⟨100, denotes_hundred, by norm_num⟩

/-- The hue before it is divided, whichever channel is the largest. -/
theorem sized_sixths {rc gc bc : Float} (red green : Bool) (first : Sized rc 2) (second : Sized gc 2)
    (third : Sized bc 2) :
    Sized (if red = true then bc - gc else if green = true then 2.0 + rc - bc else 4.0 + gc - rc) 4 := by
  have two : Sized 2.0 2 := ⟨2, denotes_two, by norm_num⟩
  split
  · exact (third.sub second (by norm_num)).mono (by norm_num)
  split
  · exact (two.add first (by norm_num)).sub (third.mono (by norm_num)) (by norm_num)
  · exact (sized_four.add second (by norm_num)).sub (first.mono (by norm_num)) (by norm_num)

/-- The largest and the smallest of three channels in the gamut that are not all alike. -/
structure Span (high low : Float) (h l : ℝ) : Prop where
  high : Denotes high h
  low : Denotes low l
  least : 0 ≤ l
  apart : l < h
  most : h ≤ 1

namespace Span

variable {high low : Float} {h l : ℝ}

/-- The place of a channel between both ends. -/
theorem place (span : Span high low h l) (stands : Denotes x v) (least : l ≤ v) (most : v ≤ h) :
    ∃ q, divide? (high - x) (high - low) = some q ∧ Sized q 2 := by
  obtain ⟨stands_high, stands_low, bottom, apart, top⟩ := span
  exact divide?_gap (computes_sub stands_high stands) (computes_sub stands_high stands_low) (by linarith) (by linarith)
    (by linarith) (by linarith) (stands_high.isDouble.onGrid.sub stands_low.isDouble.onGrid)

/-- The saturation of a dark color. -/
theorem dark (span : Span high low h l) : ∃ q, divide? (high - low) (high + low) = some q ∧ Sized q 2 := by
  obtain ⟨stands_high, stands_low, bottom, apart, top⟩ := span
  exact divide?_gap (computes_sub stands_high stands_low) (computes_add stands_high stands_low) (by linarith)
    (by linarith) (by linarith) (by linarith) (stands_high.isDouble.onGrid.add stands_low.isDouble.onGrid)

/-- The saturation of a light color; two less the largest channel is one at least, also when it is rounded. -/
theorem light (span : Span high low h l) : ∃ q, divide? (high - low) (2.0 - high - low) = some q ∧ Sized q 2 := by
  obtain ⟨stands_high, stands_low, bottom, apart, top⟩ := span
  obtain ⟨p, stands_rest, near_rest, -⟩ := (computes_sub denotes_two stands_high).within_power (k := 1) (by norm_num)
    (by rw [abs_of_nonneg (by linarith)]; linarith)
  have least := near_rest.le_of_ge denotes_one.isDouble (by linarith)
  have most := near_rest.le_of_le denotes_two.isDouble (by linarith)
  exact divide?_gap (computes_sub stands_high stands_low) (computes_sub stands_rest stands_low) (by linarith)
    (by linarith) (by linarith) (by linarith) (stands_rest.isDouble.onGrid.sub stands_low.isDouble.onGrid)

end Span

/-- In the gamut no divisor is zero and nothing grows too large. -/
theorem srgbToHsl_of_inGamut {c : Channels} (inside : c.InGamut) : ∃ d, srgbToHsl c = some d ∧ d.isFinite = true := by
  obtain ⟨red, green, blue⟩ := c
  obtain ⟨inside_r, inside_g, inside_b⟩ := inside
  obtain ⟨r, stands_r, least_r, most_r⟩ := denotes_of_within (not_lt_of_le inside_r.1) inside_r.2
  obtain ⟨g, stands_g, least_g, most_g⟩ := denotes_of_within (not_lt_of_le inside_g.1) inside_g.2
  obtain ⟨b, stands_b, least_b, most_b⟩ := denotes_of_within (not_lt_of_le inside_b.1) inside_b.2
  have stands_high := denotes_larger (denotes_larger stands_r stands_g) stands_b
  have stands_low := denotes_smaller (denotes_smaller stands_r stands_g) stands_b
  have most : max (max r g) b ≤ 1 := max_le (max_le most_r most_g) most_b
  have least : 0 ≤ min (min r g) b := le_min (le_min least_r least_g) least_b
  obtain ⟨⟨above_r, above_g⟩, above_b⟩ := (max_le_iff.mp (le_refl (max (max r g) b))).imp_left max_le_iff.mp
  obtain ⟨⟨below_r, below_g⟩, below_b⟩ := (le_min_iff.mp (le_refl (min (min r g) b))).imp_left le_min_iff.mp
  unfold srgbToHsl
  dsimp only
  generalize larger (larger red green) blue = high at *
  generalize smaller (smaller red green) blue = low at *
  generalize max (max r g) b = h at *
  generalize min (min r g) b = l at *
  have lightness : Sized ((high + low) / 2.0 * 100.0) (1 + 7) := by
    have sum : Sized (high + low) 1 := (computes_add stands_high stands_low).sized (by norm_num)
      (by rw [abs_of_nonneg (by linarith)]; linarith)
    exact (sum.div denotes_two (by norm_num) (by norm_num)).mul sized_hundred (by norm_num)
  -- Gray has no hue and no saturation; otherwise there is a difference to divide by.
  by_cases same : l = h
  · rw [if_pos ((stands_low.beq_iff stands_high).mpr same)]
    have zero : Sized 0.0 0 := ⟨0, denotes_zero, by norm_num⟩
    have hue := zero.mul sized_turn (by norm_num)
    exact ⟨_, rfl, isFinite_of_sized hue (zero.mul sized_hundred (by norm_num)) lightness⟩
  have span : Span high low h l := ⟨stands_high, stands_low, least, lt_of_le_of_ne (below_r.trans above_r) same, most⟩
  obtain ⟨rc, rc_eq, place_r⟩ := span.place stands_r below_r above_r
  obtain ⟨gc, gc_eq, place_g⟩ := span.place stands_g below_g above_g
  obtain ⟨bc, bc_eq, place_b⟩ := span.place stands_b below_b above_b
  have hue : Sized (wrapAround ((if (red == high) = true then bc - gc else if (green == high) = true then 2.0 + rc - bc
      else 4.0 + gc - rc) / 6.0) 1 * 360.0) (54 + 9) := by
    obtain ⟨t, turns, -⟩ := (sized_sixths (red == high) (green == high) place_r place_g place_b).div denotes_six
      (by norm_num) (by norm_num)
    exact (sized_wrapAround turns).mul sized_turn (by norm_num)
  rw [if_neg (mt (stands_low.beq_iff stands_high).mp same)]
  simp only [rc_eq, gc_eq, bc_eq]
  split
  · obtain ⟨s, s_eq, saturation⟩ := span.dark
    rw [s_eq]
    exact ⟨_, rfl, isFinite_of_sized hue (saturation.mul sized_hundred (by norm_num)) lightness⟩
  · obtain ⟨s, s_eq, saturation⟩ := span.light
    rw [s_eq]
    exact ⟨_, rfl, isFinite_of_sized hue (saturation.mul sized_hundred (by norm_num)) lightness⟩

/-! ### Spaces and formats -/

namespace Color

/-- The channels are those of the space already, or each step on the way there has a finite result. -/
def Reaches (color : Color) (space : ColorSpace) : Prop :=
  color.space = space ∨ ∃ c, color.channels.carried? color.space space = some c ∧ c.isFinite = true

/-- The text has the channels of the color or of what it is converted to, and that is a color in the space of the
format. -/
def Shows (color : Color) (format : ColorFormat) (places : Int) (text : String) : Prop :=
  ∃ shown : Color, shown.space = format.space ∧ shown.alpha = color.alpha ∧
    (shown = color ∨ color.converted? format.space = some shown) ∧ shown.write (some format) places = .ok text

theorem reaches_iff (color : Color) (space : ColorSpace) :
    color.Reaches space ↔ color.space = space ∨ ∃ result, color.converted? space = some result := by
  unfold Reaches converted?
  by_cases there : color.space = space
  · simp [there]
  · rw [if_neg there]
    refine or_congr_right ?_
    cases color.channels.carried? color.space space with
    | none => simp
    | some c => cases finite : c.isFinite <;> simp [finite]

/-- A color in the gamut of `srgb` can be brought to `hsl`. -/
theorem reaches_hsl {color : Color} (space : color.space = .srgb) (inside : color.channels.InGamut) :
    color.Reaches .hsl := by
  obtain ⟨c, carried, finite⟩ := srgbToHsl_of_inGamut inside
  exact .inr ⟨c, by rw [space]; exact carried, finite⟩

/-- What a format shows is written like a color of the format's own space with the same channels. -/
theorem write_relabeled (color : Color) (format : ColorFormat) (places : Int) : color.write (some format) places =
    { color.convert format.space with space := format.space }.write (some format) places := by
  -- What was relabeled is in the space already, so it is not converted a second time.
  obtain ⟨shown, converted⟩ : ∃ shown, color.convert format.space = shown := ⟨_, rfl⟩
  have kept := convert_self { shown with space := format.space }
  rw [converted]
  cases format <;> dsimp only [ColorFormat.space] at converted kept ⊢
  case hex =>
    dsimp only [write, writeHex]
    rw [converted, kept]
  case rgb =>
    dsimp only [write, writeRgb]
    rw [converted, kept]
  case hsl =>
    dsimp only [write, writeHsl]
    rw [converted, kept]
  all_goals
    dsimp only [write, writeFunction]
    rw [converted, kept]

/-- A text shows a color in the space of its format just if the color reaches that space; otherwise it is the text of a
color there that happens to have the same channels. Whatever is converted keeps its opacity. -/
theorem write_in_space_iff {color : Color} {format : ColorFormat} {places : Int} {text : String}
    (written : color.write (some format) places = .ok text) :
    (color.Shows format places text ↔ color.Reaches format.space) ∧
      (¬color.Reaches format.space → { color with space := format.space }.write (some format) places = .ok text) ∧
      (color.space = .srgb → color.channels.InGamut → color.Reaches .hsl) ∧
      ∀ target result, color.converted? target = some result →
        result.space = target ∧ result.alpha = color.alpha ∧ result.channels.isFinite = true := by
  refine ⟨⟨?_, ?_⟩, ?_, reaches_hsl, fun target result => converted?_space color result target⟩
  · rintro ⟨shown, space, -, rfl | converted, -⟩
    · exact .inl space
    · exact (reaches_iff color format.space).mpr (.inr ⟨shown, converted⟩)
  · intro reaches
    rcases (reaches_iff color format.space).mp reaches with there | ⟨result, converted⟩
    · exact ⟨color, there, rfl, .inl rfl, written⟩
    · obtain ⟨space, alpha, -⟩ := converted?_space color result format.space converted
      refine ⟨result, space, alpha, .inr converted, ?_⟩
      rw [write_relabeled] at written
      rwa [convert, converted, Option.getD_some, ← space] at written
  · intro stays
    have none : color.converted? format.space = none := by
      refine Option.eq_none_iff_forall_ne_some.mpr fun result converted => stays ?_
      exact (reaches_iff color format.space).mpr (.inr ⟨result, converted⟩)
    rwa [write_relabeled, convert, none, Option.getD_none] at written

/-- Blue as an angle and two percentages. -/
theorem write_in_space_blue : (⟨.srgb, ⟨0.0, 0.0, 1.0⟩, 1.0⟩ : Color).write (some .hsl) 4 = .ok "hsl(240 100% 50%)" ∧
    (⟨.srgb, ⟨0.0, 0.0, 1.0⟩, 1.0⟩ : Color).Shows .hsl 4 "hsl(240 100% 50%)" := by
  have written : (⟨.srgb, ⟨0.0, 0.0, 1.0⟩, 1.0⟩ : Color).write (some .hsl) 4 = .ok "hsl(240 100% 50%)" := by
    decide +kernel
  refine ⟨written, (write_in_space_iff written).1.mpr (reaches_hsl rfl ?_)⟩
  unfold Channels.InGamut
  decide +kernel

/-- Red, green and blue out of the gamut, which add up to nothing, stand under the name of another space. -/
theorem write_keeps_channels : (⟨.srgb, ⟨-1.0, 0.0, 1.0⟩, 1.0⟩ : Color).write (some .hsl) 4 = .ok "hsl(-1 0% 1%)" ∧
    ¬(⟨.srgb, ⟨-1.0, 0.0, 1.0⟩, 1.0⟩ : Color).Shows .hsl 4 "hsl(-1 0% 1%)" := by
  have none : (⟨.srgb, ⟨-1.0, 0.0, 1.0⟩, 1.0⟩ : Color).converted? .hsl = none := by decide +kernel
  refine ⟨by decide +kernel, ?_⟩
  rintro ⟨shown, space, -, rfl | converted, -⟩
  · cases space
  · rw [ColorFormat.space, none] at converted
    cases converted

end Color

end Retouch.Style
