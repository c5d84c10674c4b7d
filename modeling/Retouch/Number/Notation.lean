import Retouch.Number.Binary

/-!
# How numbers are written

Two ways of writing a double. The full form has the fewest digits that read back, with a point or an
exponent so that it cannot be taken for an integer; the fixed form has a given number of decimal
places at most, and no exponent.

The shortest decimal is the one with the fewest digits among those that are nearer to a double than to
any other, and of these the nearest. The reals that round to `m * 2 ^ q` lie between the midpoints to both
neighbours, the midpoints included when `m` is even. For one digit, two digits and so on the two neighbours
of the value on that decimal grid are tried; seventeen digits always suffice.
-/
namespace Retouch.Number

/-- The number `digits * 10 ^ exponent`. -/
structure Decimal where
  digits : Nat
  exponent : Int
  deriving DecidableEq, Repr

/-- Compares `a * 10 ^ e` with `n / d`, as `n / d` against it: less, equal or greater. -/
def Decimal.compareWith (decimal : Decimal) (num den : Nat) : Ordering :=
  match decimal.exponent with
  | .ofNat up => compare (decimal.digits * Nat.pow 10 up * den) num
  | .negSucc down => compare (decimal.digits * den) (num * Nat.pow 10 (down + 1))

/-- The reals that round to a double: `low / den` to `high / den` around `value / den`. -/
structure Rounders where
  low : Nat
  value : Nat
  high : Nat
  den : Nat
  closed : Bool

/-- The neighbour below a power of two is half as far away as the one above. -/
def Binary.rounders (b : Binary) : Rounders :=
  let below := if b.mantissa = Nat.pow 2 52 ∧ -1074 < b.exponent then 1 else 2
  let (unit, den) := match b.exponent with
    | .ofNat up => (Nat.pow 2 up, 4)
    | .negSucc down => (1, 4 * Nat.pow 2 (down + 1))
  { low := (4 * b.mantissa - below) * unit
    value := 4 * b.mantissa * unit
    high := (4 * b.mantissa + 2) * unit
    den := den
    closed := b.mantissa % 2 = 0 }

def Rounders.holds (r : Rounders) (decimal : Decimal) : Bool :=
  match decimal.compareWith r.low r.den, decimal.compareWith r.high r.den with
  | .gt, .lt => true
  | .eq, _ => r.closed
  | _, .eq => r.closed
  | _, _ => false

/-- The largest `k` with `10 ^ k` at most the value, sought among the candidates below `bound`. -/
def Rounders.decimalPlace (r : Rounders) : Int :=
  let guess : Int := ((Nat.log2 r.value : Int) - (Nat.log2 r.den : Int)) * 30103 / 100000
  let candidates := [guess + 2, guess + 1, guess, guess - 1, guess - 2]
  (candidates.find? fun k =>
    (Decimal.mk 1 k).compareWith r.value r.den != .gt).getD (guess - 3)

/-- The largest grid point at most the value, in units of `10 ^ exponent`. -/
def Rounders.floorOn (r : Rounders) (exponent : Int) : Nat :=
  match exponent with
  | .ofNat up => r.value / (r.den * Nat.pow 10 up)
  | .negSucc down => r.value * Nat.pow 10 (down + 1) / r.den

/-- Whether the value lies nearer to the lower of two grid points; a tie goes to the even one. -/
def Rounders.lowerIsNearer (r : Rounders) (lower : Decimal) : Bool :=
  match (Decimal.mk (10 * lower.digits + 5) (lower.exponent - 1)).compareWith r.value r.den with
  | .gt => true
  | .eq => lower.digits % 2 = 0
  | .lt => false

/-- The neighbour of the value on one grid that reads back, the nearer one if both do. -/
def Rounders.onGrid (r : Rounders) (exponent : Int) : Option Decimal :=
  let lower := Decimal.mk (r.floorOn exponent) exponent
  let upper := Decimal.mk (r.floorOn exponent + 1) exponent
  match r.holds lower, r.holds upper with
  | true, true => some (if r.lowerIsNearer lower then lower else upper)
  | true, false => some lower
  | false, true => some upper
  | false, false => none

/-- Tries grids of one digit more each time. -/
def Rounders.firstGrid (r : Rounders) : Nat → Int → Decimal
  | 0, exponent => Decimal.mk (r.floorOn exponent) exponent
  | fuel + 1, exponent =>
    match r.onGrid exponent with
    | some decimal => decimal
    | none => r.firstGrid fuel (exponent - 1)

/-- Strips zeros from the end of the digits. -/
def Decimal.stripZeros : Nat → Decimal → Decimal
  | 0, decimal => decimal
  | fuel + 1, decimal =>
    if decimal.digits % 10 = 0 ∧ decimal.digits ≠ 0 then
      Decimal.stripZeros fuel ⟨decimal.digits / 10, decimal.exponent + 1⟩
    else decimal

/-- The shortest decimal that reads back as the magnitude of a double. -/
def Binary.shortest (b : Binary) : Decimal :=
  if b.mantissa = 0 then ⟨0, 0⟩
  else
    let r := b.rounders
    Decimal.stripZeros 20 (r.firstGrid 17 r.decimalPlace)

/-- The choices that the full form makes. -/
structure FullForm where
  /-- From this decimal point position on, the exponent is written. -/
  exponentFrom : Int
  /-- Up to this decimal point position, the exponent is written. -/
  exponentUpTo : Int
  /-- Digits of the exponent at least. -/
  exponentWidth : Nat

/-- Positional for magnitudes from 0.0001 to below 10^16. -/
def fullForm : FullForm := ⟨17, -4, 2⟩

def digitChars (n : Nat) : List Char := Nat.toDigits 10 n

/-- The digits with zeros in front, to a width at least. -/
def padLeft (width : Nat) (cs : List Char) : List Char :=
  List.replicate (width - cs.length) '0' ++ cs

/-- Digits with the point after `point` of them; zeros fill the gap, one digit stands on either side. -/
def positional (digits : List Char) (point : Int) : List Char :=
  if point ≤ 0 then
    '0' :: '.' :: (List.replicate point.natAbs '0' ++ digits)
  else
    let whole := point.natAbs
    if digits.length ≤ whole then
      digits ++ List.replicate (whole - digits.length) '0' ++ ['.', '0']
    else digits.take whole ++ '.' :: digits.drop whole

/-- One digit, the others after a point, and the exponent with its sign. -/
def scientific (form : FullForm) (digits : List Char) (point : Int) : List Char :=
  let exponent := point - 1
  let fraction := match digits.tail with
    | [] => []
    | more => '.' :: more
  digits.take 1 ++ fraction ++ ['e', if exponent < 0 then '-' else '+'] ++
    padLeft form.exponentWidth (digitChars exponent.natAbs)

/-- The full form of a finite double. -/
def Binary.fullChars (form : FullForm) (b : Binary) : List Char :=
  let decimal := b.shortest
  let digits := digitChars decimal.digits
  let point : Int := if b.mantissa = 0 then 1 else decimal.exponent + digits.length
  let body :=
    if form.exponentUpTo < point ∧ point < form.exponentFrom then positional digits point
    else scientific form digits point
  if b.negative then '-' :: body else body

/-- The full form of a double, with words for the values that are no numbers. -/
def fullText (x : Float) : String :=
  match reading x with
  | .nan => "nan"
  | .infinite negative => if negative then "-inf" else "inf"
  | .finite b => String.ofList (b.fullChars fullForm)

/-- Drops zeros from the end of a fraction, and a point that is left bare. -/
def stripFraction (cs : List Char) : List Char :=
  match cs.reverse.dropWhile (· = '0') with
  | '.' :: rest => rest.reverse
  | rest => rest.reverse

/-- `units / 10 ^ places` without superfluous zeros. -/
def fixedChars (places units : Nat) : List Char :=
  let whole := digitChars (units / Nat.pow 10 places)
  if places = 0 then whole
  else stripFraction (whole ++ '.' :: padLeft places (digitChars (units % Nat.pow 10 places)))

/-- Why a number could not be written in fixed form. -/
inductive FixedError where
  /-- The number of places is negative. -/
  | missingPrecision
  /-- The number of places is beyond any use. -/
  | precisionTooBig
  /-- The number of places is beyond what can be asked for. -/
  | tooManyDigits
  /-- Rounding to a power of ten leaves the range of doubles. -/
  | overflow
  deriving DecidableEq, Repr

def FixedError.message : FixedError → String
  | .missingPrecision => "Format specifier missing precision"
  | .precisionTooBig => "precision too big"
  | .tooManyDigits => "Too many decimal digits in format string"
  | .overflow => "rounded value too large to represent"

/-- More places than these are refused. -/
def placesLimit : Nat := 2147483647

/-- More places than these cannot even be asked for. -/
def placesBound : Nat := 9223372036854775807

/-- The refusal of a number of places beyond the limit. -/
def FixedError.ofPlaces (places : Nat) : FixedError :=
  if placesBound < places then .tooManyDigits else .precisionTooBig

/-- More places than this no double has. -/
def fullPlaces : Nat := 1080

/-- A double to `places` decimals at most, a half going to the even digit. -/
def Binary.fixedChars (b : Binary) (places : Nat) : List Char :=
  let (num, den) := b.scaled places
  let units := roundQuotient num den
  if units = 0 then ['0']
  else
    let body := Number.fixedChars places units
    if b.negative then '-' :: body else body

/-- What is left of a double once its last `tens` digits before the point are rounded away. -/
def Binary.tens (b : Binary) (tens : Nat) : Nat :=
  let (num, den) := b.scaled 0
  roundQuotient num (den * Nat.pow 10 tens)

/-- The fixed form: at most `places` decimals, and no exponent. A negative number of places rounds
before the point, which only zero survives. -/
def fixedText (x : Float) (places : Int) : Except FixedError String :=
  match reading x with
  | .nan | .infinite _ => .ok (fullText x)
  | .finite b =>
    match places with
    | .ofNat n =>
      if placesLimit < n then
        if b.mantissa = 0 then .ok "0" else .error (.ofPlaces n)
      else .ok (String.ofList (b.fixedChars (min n fullPlaces)))
    | .negSucc m =>
      if 308 < m + 1 then .ok "0"
      else
        let units := b.tens (m + 1)
        if units = 0 then .ok "0"
        else if (ofDecimal units (digitChars units).length (m + 1)).isInf then .error .overflow
        else .error .missingPrecision

/-- Numbers in styles have four decimals at most, unless asked otherwise. -/
def defaultPlaces : Int := 4

/-- A number with exactly `places` decimals; what rounds to zero has no sign. -/
def decimalsText (places : Nat) (x : Float) : String :=
  match reading x with
  | .nan | .infinite _ => fullText x
  | .finite b =>
    let (num, den) := b.scaled places
    let units := roundQuotient num den
    let unit := Nat.pow 10 places
    let body := digitChars (units / unit) ++ '.' :: padLeft places (digitChars (units % unit))
    String.ofList (if b.negative && units != 0 then '-' :: body else body)

end Retouch.Number
