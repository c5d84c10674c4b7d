import Retouch.Proofs.Number.Known
import Retouch.Proofs.Style.Trip
import Retouch.Proofs.Wire.Transform

/-!
# Values that are read from texts

Reading a value never fails: what cannot be understood is kept as text. What is understood is well formed, whatever
the text was. Opacities are in range and numbers are numbers, a tuple has several members of which none is a tuple,
the names of variables begin with two dashes, and their fallbacks nest seventeen levels deep at most. Such a value
can travel, and arrives as it was.

## Main statements

* `valid_of_ofChars?`: the opacity and the channels of a color that is read from a text.
* `wellFormed_readAt`: what is read with some levels to spare is well formed, and nests no deeper than that.
* `parse_wellFormed`: so is the value of every text, and it is read back from its object.
-/
namespace Retouch.Style

open Retouch.Text Retouch.Number

/-! ### Colors -/

/-- A color has numbers for channels, and an opacity from 0 to 1. -/
structure Color.Valid (color : Color) : Prop where
  known : ∀ x ∈ color.channels.toList, IsNumber x
  least : 0.0 ≤ color.alpha
  most : color.alpha ≤ 1.0

theorem clampAlpha_within (alpha : Float) : 0.0 ≤ clampAlpha alpha ∧ clampAlpha alpha ≤ 1.0 := by
  unfold clampAlpha
  split
  · rename_i positive
    split
    · rename_i below
      exact ⟨le_of_lt positive, le_of_lt below⟩
    · exact ⟨by decide +kernel, by decide +kernel⟩
  · exact ⟨by decide +kernel, by decide +kernel⟩

theorem valid_make {a b c : Float} (space : ColorSpace) (alpha : Float) (first : IsNumber a) (second : IsNumber b)
    (third : IsNumber c) : (Color.make space ⟨a, b, c⟩ alpha).Valid where
  known := by simp [Color.make, Channels.toList, first, second, third]
  least := (clampAlpha_within alpha).1
  most := (clampAlpha_within alpha).2

theorem isNumber_takeNumber {token rest : List Char} {x : Float} (read : takeNumber token = some (x, rest)) :
    IsNumber x := by
  unfold takeNumber at read
  dsimp only at read
  split at read
  · cases read
  · obtain ⟨rfl, -⟩ := Prod.mk.inj (Option.some.inj read)
    split
    · exact (isNumber_ofDecimal _ _ _).neg
    · exact isNumber_ofDecimal _ _ _

theorem isNumber_channel? {scale x : Float} {token : List Char} (factor : IsFactor scale)
    (read : channel? scale token = some x) : IsNumber x := by
  unfold channel? at read
  split at read
  · obtain rfl := Option.some.inj read
    decide +kernel
  · obtain ⟨⟨number, rest⟩, taken, read⟩ := Option.bind_eq_some_iff.mp read
    obtain ⟨unit, -, read⟩ := Option.bind_eq_some_iff.mp read
    have known := isNumber_takeNumber taken
    cases unit <;> obtain rfl := Option.some.inj read
    · exact known
    · exact (known.div (by decide +kernel)).mul factor
    · exact known
    · exact known.mul (by decide +kernel)
    · exact known.mul (by decide +kernel)
    · exact known.mul (by decide +kernel)

theorem isNumber_hexShare (high low : Nat) : IsNumber (hexShare high low) :=
  (isNumber_ofNat _).div (by decide +kernel)

theorem valid_of_colorOfHex? {digits : List Char} {color : Color} (read : colorOfHex? digits = some color) :
    color.Valid := by
  unfold colorOfHex? at read
  split at read
  case h_5 => cases read
  all_goals
    obtain rfl := Option.some.inj read
    exact valid_make _ _ (isNumber_hexShare _ _) (isNumber_hexShare _ _) (isNumber_hexShare _ _)

theorem valid_of_colorOfName? {name : String} {color : Color} (read : colorOfName? name = some color) :
    color.Valid := by
  obtain ⟨⟨_, r, g, b⟩, -, rfl⟩ := Option.map_eq_some_iff.mp read
  have share (n : Nat) : IsNumber (Number.ofNat n / 255.0) := (isNumber_ofNat n).div (by decide +kernel)
  exact valid_make _ _ (share r) (share g) (share b)

/-- Three channels make a color, each on its own scale. -/
theorem valid_of_channels {r s t : Float} {a b c : List Char} {color : Color} {make : Float → Float → Float → Color}
    (first : IsFactor r) (second : IsFactor s) (third : IsFactor t)
    (valid : ∀ x y z, IsNumber x → IsNumber y → IsNumber z → (make x y z).Valid)
    (read : (do
      let x ← channel? r a
      let y ← channel? s b
      let z ← channel? t c
      some (make x y z)) = some color) : color.Valid := by
  obtain ⟨x, readX, read⟩ := Option.bind_eq_some_iff.mp read
  obtain ⟨y, readY, read⟩ := Option.bind_eq_some_iff.mp read
  obtain ⟨z, readZ, read⟩ := Option.bind_eq_some_iff.mp read
  obtain rfl := Option.some.inj read
  exact valid _ _ _ (isNumber_channel? first readX) (isNumber_channel? second readY) (isNumber_channel? third readZ)

theorem valid_of_colorOfFunction? {name : String} {body : List Char} {color : Color}
    (read : colorOfFunction? name body = some color) : color.Valid := by
  unfold colorOfFunction? at read
  dsimp only at read
  -- Whatever the opacity was read as, making the color brings it into range. So only the scales matter.
  obtain ⟨alpha, -, read⟩ := Option.bind_eq_some_iff.mp read
  have one : IsFactor 1.0 := by decide +kernel
  have axis : IsFactor 0.4 := by decide +kernel
  have hundred : IsFactor 100.0 := by decide +kernel
  have whole : IsFactor 255.0 := by decide +kernel
  split at read
  · split at read
    · exact valid_of_channels whole whole whole
        (fun x y z known known' known'' => valid_make _ _ (known.div whole) (known'.div whole) (known''.div whole)) read
    split at read
    · exact valid_of_channels one hundred hundred (fun x y z => valid_make _ _) read
    split at read
    · exact valid_of_channels one axis one (fun x y z => valid_make _ _) read
    split at read
    · exact valid_of_channels one axis axis (fun x y z => valid_make _ _) read
    · cases read
  · split at read
    · split at read
      · exact valid_of_channels one one one (fun x y z => valid_make _ _) read
      split at read
      · exact valid_of_channels one one one (fun x y z => valid_make _ _) read
      · cases read
    · cases read
  · cases read

/-- Every color that is read from a text has numbers for channels, and an opacity in range. -/
theorem valid_of_ofChars? {text : List Char} {color : Color} (read : Color.ofChars? text = some color) :
    color.Valid := by
  unfold Color.ofChars? at read
  dsimp only at read
  split at read
  · exact valid_of_colorOfHex? read
  split at read
  · rename_i named
    obtain rfl := Option.some.inj read
    exact valid_of_colorOfName? named
  split at read
  · obtain rfl := Option.some.inj read
    have zero : IsNumber 0.0 := by decide +kernel
    exact valid_make _ _ zero zero zero
  split at read
  · exact valid_of_colorOfFunction? read
  · cases read

/-- The opacity of such a color passes its check. -/
theorem Color.Valid.inside {color : Color} (valid : color.Valid) : Wire.Inside color.alpha :=
  ⟨not_lt_of_le valid.most, not_lt_of_le valid.least⟩

/-! ### Values -/

namespace Value

/-- A value that reading can give, with so many levels of references at most. Each unit is one of the eight that
there are. -/
inductive WellFormed : Nat → Value → Prop where
  | unit {levels : Nat} {size : Float} (u : LengthUnit) (known : IsNumber size) : WellFormed levels (.unit size u)
  | number {levels : Nat} {x : Float} (known : IsNumber x) : WellFormed levels (.number x)
  | keyword {levels : Nat} (word : String) : WellFormed levels (.keyword word)
  | color {levels : Nat} {c : Color} (valid : c.Valid) : WellFormed levels (.color c)
  | var {levels : Nat} {name : String} (dashed : "--".toList <+: name.toList) : WellFormed (levels + 1) (.var name none)
  | fallback {levels : Nat} {name : String} {value : Value} (dashed : "--".toList <+: name.toList)
      (inner : WellFormed levels value) : WellFormed (levels + 1) (.var name (some value))
  | tuple {levels : Nat} {values : List Value} (several : 2 ≤ values.length)
      (flat : ∀ value ∈ values, value.shape ≠ .tuple) (each : ∀ value ∈ values, WellFormed levels value) :
    WellFormed levels (.tuple values)
  | unparsed {levels : Nat} (text : String) : WellFormed levels (.unparsed text)

/-- A well-formed value that stands for one token. -/
structure Single (levels : Nat) (value : Value) : Prop where
  wellFormed : WellFormed levels value
  flat : value.shape ≠ .tuple

theorem single_unparsed (levels : Nat) (text : String) : Single levels (.unparsed text) := ⟨.unparsed text, by simp [shape]⟩

theorem single_of_dimension? {levels : Nat} {token : List Char} {value : Value}
    (read : dimension? token = some value) : Single levels value := by
  unfold dimension? at read
  obtain ⟨⟨number, rest⟩, taken, read⟩ := Option.bind_eq_some_iff.mp read
  obtain ⟨-, -, read⟩ := Option.bind_eq_some_iff.mp read
  have known := isNumber_takeNumber taken
  split at read
  · obtain rfl := Option.some.inj read
    exact ⟨.number known, by simp [shape]⟩
  split at read
  · obtain rfl := Option.some.inj read
    exact ⟨.unit _ known, by simp [shape]⟩
  · obtain rfl := Option.some.inj read
    exact single_unparsed _ _

/-- A color, or what stands in its place when it cannot be read. -/
theorem single_color {levels : Nat} {other : Value} (token : List Char) (instead : Single levels other) :
    Single levels (((Color.ofChars? token).map .color).getD other) := by
  cases read : Color.ofChars? token with
  | none => exact instead
  | some color => exact ⟨.color (valid_of_ofChars? read), by simp [shape]⟩

section Token

variable {levels : Nat} {inner : List Char → Option Value}
  (sound : ∀ text value, inner text = some value → WellFormed levels value)

include sound

theorem single_of_readVar {body : List Char} {value : Value} (read : readVar inner body = some value) :
    Single (levels + 1) value := by
  unfold readVar at read
  obtain ⟨parts, -, read⟩ := Option.bind_eq_some_iff.mp read
  dsimp only at read
  split at read
  · obtain rfl := Option.some.inj read
    exact single_unparsed _ _
  rename_i named
  have dashed : "--".toList <+: (String.ofList (trim (parts.headD []))).toList := by
    rw [String.toList_ofList]
    simpa [List.isPrefixOf_iff_prefix] using named
  split at read
  · obtain rfl := Option.some.inj read
    exact ⟨.var dashed, by simp [shape]⟩
  · obtain ⟨fallback, readInner, read⟩ := Option.bind_eq_some_iff.mp read
    obtain rfl := Option.some.inj read
    exact ⟨.fallback dashed (sound _ _ readInner), by simp [shape]⟩

theorem single_of_readToken {colors : Bool} {token : List Char} {value : Value}
    (read : readToken colors inner token = some value) : Single (levels + 1) value := by
  unfold readToken at read
  dsimp only at read
  have word (cs : List Char) : Single (levels + 1) (.keyword (String.ofList cs)) := ⟨.keyword _, by simp [shape]⟩
  split at read
  · rename_i sized
    obtain rfl := Option.some.inj read
    exact single_of_dimension? sized
  split at read
  · obtain rfl := Option.some.inj read
    exact single_color _ (single_unparsed _ _)
  · split at read
    · obtain rfl := Option.some.inj read
      exact word _
    split at read
    · split at read
      · exact single_of_readVar sound read
      split at read
      · obtain rfl := Option.some.inj read
        exact single_color _ (single_unparsed _ _)
      · obtain rfl := Option.some.inj read
        exact single_unparsed _ _
    · split at read
      · split at read
        · obtain rfl := Option.some.inj read
          exact single_color _ (word _)
        · obtain rfl := Option.some.inj read
          exact word _
      · obtain rfl := Option.some.inj read
        exact single_unparsed _ _
  · obtain rfl := Option.some.inj read
    exact single_unparsed _ _

end Token

theorem forall₂_of_mapM {read : List Char → Option Value} {tokens : List (List Char)} {values : List Value}
    (found : tokens.mapM read = some values) :
    List.Forall₂ (fun token value => read token = some value) tokens values := by
  induction tokens generalizing values with
  | nil =>
    obtain rfl := Option.some.inj found
    exact .nil
  | cons token rest ih =>
    rw [List.mapM_cons] at found
    obtain ⟨value, here, found⟩ := Option.bind_eq_some_iff.mp found
    obtain ⟨others, later, found⟩ := Option.bind_eq_some_iff.mp found
    obtain rfl := Option.some.inj found
    exact .cons here (ih later)

/-- What is read with some levels to spare is well formed, and nests no deeper than that. -/
theorem wellFormed_readAt {colors : Bool} {levels : Nat} {text : List Char} {value : Value}
    (read : readAt colors levels text = some value) : WellFormed levels value := by
  -- A fallback is read with one level fewer; with none left every text is kept as it is.
  induction levels generalizing text value with
  | zero =>
    obtain rfl := Option.some.inj read
    exact .unparsed _
  | succ levels ih =>
    have single {token : List Char} {value : Value} (read : readToken colors (readAt colors levels) token = some value) :
        Single (levels + 1) value := single_of_readToken (fun _ _ => ih) read
    rw [← readAt_trim] at read
    rcases readAt_cases (bare_trim text) read with rfl | ⟨-, tokens, spaced, -, read⟩
    · exact .unparsed _
    unfold readTokens at read
    split at read
    · exact (single read).wellFormed
    · rename_i several
      obtain ⟨values, found, rfl⟩ := Option.map_eq_some_iff.mp read
      have each : List.Forall₂ (fun token value => readToken colors (readAt colors levels) token = some value)
        tokens values := forall₂_of_mapM found
      -- There are no fewer values than tokens, and each value is that of one token.
      refine .tuple ?_ (fun value member => ?_) fun value member => ?_
      · rw [← each.length_eq]
        rcases tokens with _ | ⟨token, _ | ⟨second, rest⟩⟩
        · exact absurd rfl spaced.ne_nil
        · exact absurd rfl (several token)
        · simp
      · obtain ⟨_, -, read⟩ := Wire.exists_of_forall₂ each member
        exact (single read).flat
      · obtain ⟨_, -, read⟩ := Wire.exists_of_forall₂ each member
        exact (single read).wellFormed

/-! ### Values on the way -/

/-- Between two references there is one tuple at most. -/
theorem WellFormed.fits {levels : Nat} {value : Value} (wellFormed : WellFormed levels value) :
    Wire.Fits (2 * levels + 1) value ∧ (value.shape ≠ .tuple → Wire.Fits (2 * levels) value) := by
  -- By the shape: a tuple costs a level on the way that reading does not count, but none stands in another.
  induction wellFormed with
  | unit u => exact ⟨.unit _ u, fun _ => .unit _ u⟩
  | number => exact ⟨.number _, fun _ => .number _⟩
  | keyword word => exact ⟨.keyword word, fun _ => .keyword word⟩
  | color valid => exact ⟨.color _ valid.inside, fun _ => .color _ valid.inside⟩
  | var => exact ⟨.var _, fun _ => .var _⟩
  | fallback dashed inner ih => exact ⟨(Wire.Fits.fallback _ ih.1).succ, fun _ => .fallback _ ih.1⟩
  | tuple several flat each ih =>
    exact ⟨.tuple fun value member => (ih value member).2 (flat value member), fun other => absurd rfl other⟩
  | unparsed text => exact ⟨.unparsed text, fun _ => .unparsed text⟩

theorem wellFormed_parse (property text : String) : WellFormed nestingLimit (parse property text) := by
  unfold parse ofChars
  cases read : readAt (isColorProperty property) nestingLimit text.toList with
  | none => exact .unparsed _
  | some value => exact wellFormed_readAt read

theorem fits_parse (property text : String) : Wire.Fits Wire.nestingLimit (parse property text) :=
  (wellFormed_parse property text).fits.1.mono (by decide)

/-- The value of every text is well formed, with seventeen levels of references at most, and is read back from its
object as it was. -/
theorem parse_wellFormed (property text : String) :
    WellFormed 17 (parse property text) ∧ Wire.value (parse property text).toJson = .ok (parse property text) :=
  ⟨wellFormed_parse property text, (fits_parse property text).read⟩

end Value

end Retouch.Style
