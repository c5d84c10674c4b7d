import Retouch.Style.Color

/-!
# Conversion between color spaces

All conversions but those between `srgb` and `hsl` go through the CIE coordinates X, Y, Z under
daylight. A conversion fails when a step has no finite result; the color is then kept as it is. Main
statements: `convert_alpha`, the opacity is never touched, and `converted?_space`, a color that was
converted is in the space asked for.
-/
namespace Retouch.Style

/-- Three rows of three numbers. -/
structure Matrix where
  row1 : Channels
  row2 : Channels
  row3 : Channels

def Channels.dot (row v : Channels) : Float :=
  row.first * v.first + row.second * v.second + row.third * v.third

def Matrix.apply (m : Matrix) (v : Channels) : Channels :=
  ⟨m.row1.dot v, m.row2.dot v, m.row3.dot v⟩

namespace Matrix

def linearSrgbToXyz : Matrix := ⟨
  ⟨0.41239079926595934, 0.357584339383878, 0.1804807884018343⟩,
  ⟨0.21263900587151027, 0.715168678767756, 0.07219231536073371⟩,
  ⟨0.01933081871559182, 0.11919477979462598, 0.9505321522496607⟩⟩

def xyzToLinearSrgb : Matrix := ⟨
  ⟨3.2409699419045226, -1.537383177570094, -0.4986107602930034⟩,
  ⟨-0.9692436362808796, 1.8759675015077204, 0.0415550574071756⟩,
  ⟨0.05563007969699364, -0.20397695888897652, 1.0569715142428784⟩⟩

def linearP3ToXyz : Matrix := ⟨
  ⟨0.4865709486482162, 0.26566769316909306, 0.1982172852343625⟩,
  ⟨0.2289745640697488, 0.6917385218365064, 0.079286914093745⟩,
  ⟨0.0, 0.04511338185890264, 1.043944368900976⟩⟩

def xyzToLinearP3 : Matrix := ⟨
  ⟨2.493496911941425, -0.9313836179191238, -0.40271078445071684⟩,
  ⟨-0.8294889695615747, 1.762664060318346, 0.023624685841943584⟩,
  ⟨0.03584583024378436, -0.07617238926804178, 0.9568845240076872⟩⟩

def xyzToLms : Matrix := ⟨
  ⟨0.8190224379967030, 0.3619062600528904, -0.1288737815209879⟩,
  ⟨0.0329836539323885, 0.9292868615863434, 0.0361446663506424⟩,
  ⟨0.0481771893596242, 0.2642395317527308, 0.6335478284694309⟩⟩

def lmsToXyz : Matrix := ⟨
  ⟨1.2268798758459243, -0.5578149944602171, 0.2813910456659647⟩,
  ⟨-0.04057574521480088, 1.1122868032803173, -0.07171105806551643⟩,
  ⟨-0.07637293667466004, -0.4214933324022432, 1.5869240198367816⟩⟩

def lmsToOklab : Matrix := ⟨
  ⟨0.2104542683093140, 0.7936177747023054, -0.0040720430116193⟩,
  ⟨1.9779985324311684, -2.4285922420485799, 0.4505937096174110⟩,
  ⟨0.0259040424655478, 0.7827717124575296, -0.8086757549230774⟩⟩

def oklabToLms : Matrix := ⟨
  ⟨1.0, 0.396337777376175, 0.2158037573099136⟩,
  ⟨0.9999999999999998, -0.10556134581565854, -0.06385417282581334⟩,
  ⟨0.9999999999999999, -0.08948417752981182, -1.2914855480194094⟩⟩

end Matrix

/-! ## Steps of a conversion -/

def degreesPerRadian : Float := 57.29577951308232
def radiansPerDegree : Float := 0.017453292519943295

def signOf (x : Float) : Float := if x < 0.0 then -1.0 else if 0.0 < x then 1.0 else x

/-- The larger of two; the first one, unless the second is above it. -/
def larger (a b : Float) : Float := if a < b then b else a

/-- The smaller of two; the first one, unless the second is below it. -/
def smaller (a b : Float) : Float := if b < a then b else a

/-- The remainder of a division by a whole number, from zero to below it. -/
def wrapAround (x : Float) (modulus : Nat) : Float :=
  match Number.reading x with
  | .nan | .infinite _ => 0.0 / 0.0
  | .finite b =>
    let (num, den) := b.scaled 0
    let rest := num % (modulus * den)
    -- The denominator is a power of two that may be no double, so it is taken in two parts.
    let half := Nat.log2 den / 2
    let size := Number.ofNat rest / Number.ofNat (Nat.pow 2 half) / Number.ofNat (Nat.pow 2 (Nat.log2 den - half))
    if rest = 0 then 0.0
    else if b.negative then Number.ofNat modulus - size
    else size

/-- Division, which has no result for a divisor of zero. -/
def divide? (a b : Float) : Option Float := if b == 0.0 then none else some (a / b)

/-- Cosine and sine, which have no result at infinity. -/
def cosSin? (x : Float) : Option (Float × Float) :=
  if x.isInf then none else some (x.cos, x.sin)

/-- The length of the hypotenuse, also where the squares leave the range of doubles. -/
def hypotenuse (a b : Float) : Float :=
  let scale := larger a.abs b.abs
  if scale == 0.0 || !scale.isFinite then a.abs + b.abs
  else
    let x := a / scale
    let y := b / scale
    scale * (x * x + y * y).sqrt

def decodeGamma (x : Float) : Float :=
  if x.abs ≤ 0.04045 then x / 12.92
  else signOf x * Float.pow ((x.abs + 0.055) / 1.055) 2.4

def encodeGamma (x : Float) : Float :=
  if x.abs ≤ 0.0031308 then x * 12.92
  else signOf x * (1.055 * Float.pow x.abs (1.0 / 2.4) - 0.055)

/-- One of the three channels at an angle, in turns. -/
def hueChannel (m1 m2 hue : Float) : Float :=
  let hue := wrapAround hue 1
  if hue < 1.0 / 6.0 then m1 + (m2 - m1) * hue * 6.0
  else if hue < 0.5 then m2
  else if hue < 2.0 / 3.0 then m1 + (m2 - m1) * (2.0 / 3.0 - hue) * 6.0
  else m1

def hslToSrgb (c : Channels) : Channels :=
  let h := wrapAround c.first 360 / 360.0
  let l := c.third / 100.0
  let s := c.second / 100.0
  if s == 0.0 then ⟨l, l, l⟩
  else
    let m2 := if l ≤ 0.5 then l * (1.0 + s) else l + s - l * s
    let m1 := 2.0 * l - m2
    ⟨hueChannel m1 m2 (h + 1.0 / 3.0), hueChannel m1 m2 h, hueChannel m1 m2 (h - 1.0 / 3.0)⟩

def srgbToHsl (c : Channels) : Option Channels := do
  let (r, g, b) := (c.first, c.second, c.third)
  let high := larger (larger r g) b
  let low := smaller (smaller r g) b
  let sum := high + low
  let range := high - low
  let l := sum / 2.0
  if low == high then return ⟨0.0 * 360.0, 0.0 * 100.0, l * 100.0⟩
  let s ← if l ≤ 0.5 then divide? range sum else divide? range (2.0 - high - low)
  let rc ← divide? (high - r) range
  let gc ← divide? (high - g) range
  let bc ← divide? (high - b) range
  let h := if r == high then bc - gc else if g == high then 2.0 + rc - bc else 4.0 + gc - rc
  return ⟨wrapAround (h / 6.0) 1 * 360.0, s * 100.0, l * 100.0⟩

def oklchToOklab (c : Channels) : Option Channels := do
  let (cosine, sine) ← cosSin? (c.third * radiansPerDegree)
  return ⟨c.first, c.second * cosine, c.second * sine⟩

def oklabToOklch (c : Channels) : Channels :=
  let chroma := hypotenuse c.second c.third
  let hue :=
    if 1e-6 < chroma then wrapAround (Float.atan2 c.third c.second * degreesPerRadian) 360 else 0.0
  ⟨c.first, chroma, hue⟩

def oklabToXyz (c : Channels) : Channels :=
  Matrix.lmsToXyz.apply ((Matrix.oklabToLms.apply c).map fun x => x * x * x)

def xyzToOklab (v : Channels) : Channels :=
  Matrix.lmsToOklab.apply ((Matrix.xyzToLms.apply v).map Float.cbrt)

def clipUnit (x : Float) : Float := if x < 0.0 then 0.0 else if 1.0 < x then 1.0 else x

def toXyz (space : ColorSpace) (c : Channels) : Option Channels :=
  match space with
  | .srgb => some (Matrix.linearSrgbToXyz.apply (c.map decodeGamma))
  | .hsl => some (Matrix.linearSrgbToXyz.apply ((hslToSrgb c).map decodeGamma))
  | .displayP3 => some (Matrix.linearP3ToXyz.apply (c.map decodeGamma))
  | .oklab => some (oklabToXyz c)
  | .oklch => (oklchToOklab c).map oklabToXyz

def ofXyz (space : ColorSpace) (v : Channels) : Option Channels :=
  match space with
  | .srgb => some ((Matrix.xyzToLinearSrgb.apply v).map encodeGamma)
  | .hsl => srgbToHsl (((Matrix.xyzToLinearSrgb.apply v).map encodeGamma).map clipUnit)
  | .displayP3 => some ((Matrix.xyzToLinearP3.apply v).map encodeGamma)
  | .oklab => some (xyzToOklab v)
  | .oklch => some (oklabToOklch (xyzToOklab v))

/-- The channels in another space, before they are known to be finite. -/
def Channels.carried? (c : Channels) (source target : ColorSpace) : Option Channels :=
  match source, target with
  | .srgb, .hsl => srgbToHsl c
  | .hsl, .srgb => some (hslToSrgb c)
  | _, _ => (toXyz source c).bind (ofXyz target)

/-- The color in another space, when it is not there already and the conversion succeeds. -/
def Color.converted? (color : Color) (target : ColorSpace) : Option Color :=
  if color.space = target then none
  else match color.channels.carried? color.space target with
    | some channels => if channels.isFinite then some ⟨target, channels, color.alpha⟩ else none
    | none => none

/-- The color in another space; as it is, when the conversion fails. -/
def Color.convert (color : Color) (target : ColorSpace) : Color :=
  (color.converted? target).getD color

theorem Color.converted?_space (color result : Color) (target : ColorSpace)
    (success : color.converted? target = some result) :
    result.space = target ∧ result.alpha = color.alpha ∧ result.channels.isFinite = true := by
  unfold Color.converted? at success
  split at success
  · cases success
  · split at success
    · split at success
      · next finite => cases success; exact ⟨rfl, rfl, finite⟩
      · cases success
    · cases success

theorem Color.convert_alpha (color : Color) (target : ColorSpace) :
    (color.convert target).alpha = color.alpha := by
  unfold Color.convert
  cases success : color.converted? target with
  | none => rfl
  | some result => exact (color.converted?_space result target success).2.1

end Retouch.Style
