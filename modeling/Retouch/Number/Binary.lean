/-!
# Doubles as exact numbers

A finite double is an integer times a power of two. Everything that writes a number works on that
exact value. Main statements: `Binary.scaled_mul`, the two naturals of `scaled` stand for the value
times a power of ten, and `roundQuotient_within`, rounding moves a quotient by half a unit at most.
-/
namespace Retouch.Number

/-- The number `mantissa * 2 ^ exponent`, with a sign that zero has too. -/
structure Binary where
  negative : Bool
  mantissa : Nat
  exponent : Int
  deriving DecidableEq, Repr

/-- What the bits of a double stand for. -/
inductive Reading where
  | nan
  | infinite (negative : Bool)
  | finite (value : Binary)
  deriving DecidableEq, Repr

/-- The three fields of a double: sign, eleven bits of exponent, fifty-two bits of fraction. -/
def Reading.ofBits (bits : Nat) : Reading :=
  let negative := bits / Nat.pow 2 63 % 2 = 1
  let exponent : Nat := bits / Nat.pow 2 52 % Nat.pow 2 11
  let fraction := bits % Nat.pow 2 52
  if exponent = 2047 then
    if fraction = 0 then .infinite negative else .nan
  else if exponent = 0 then .finite ⟨negative, fraction, -1074⟩
  else .finite ⟨negative, Nat.pow 2 52 + fraction, (exponent : Int) - 1075⟩

def reading (x : Float) : Reading := .ofBits x.toBits.toNat

namespace Binary

/-- Numerator and denominator of the magnitude times `10 ^ places`. -/
def scaled (b : Binary) (places : Nat) : Nat × Nat :=
  match b.exponent with
  | .ofNat up => (b.mantissa * Nat.pow 2 up * Nat.pow 10 places, 1)
  | .negSucc down => (b.mantissa * Nat.pow 10 places, Nat.pow 2 (down + 1))

theorem scaled_mul (b : Binary) (places : Nat) :
    0 < (b.scaled places).2 ∧
      (b.scaled places).1 * Nat.pow 2 (-b.exponent).toNat =
        b.mantissa * Nat.pow 10 places * Nat.pow 2 b.exponent.toNat * (b.scaled places).2 := by
  unfold scaled
  cases b.exponent with
  | ofNat up => simp [Nat.mul_comm, Nat.mul_left_comm, Nat.mul_assoc]
  | negSucc down => exact ⟨Nat.pow_pos Nat.two_pos, by simp⟩

end Binary

/-- The natural number nearest to a quotient; a half goes to the even one. -/
def roundQuotient (num den : Nat) : Nat :=
  let whole := num / den
  let rest := num % den
  if 2 * rest < den then whole
  else if den < 2 * rest then whole + 1
  else if whole % 2 = 0 then whole
  else whole + 1

/-- Rounding moves a quotient by half a unit at most. -/
theorem roundQuotient_within (num den : Nat) (positive : 0 < den) :
    2 * num ≤ (2 * roundQuotient num den + 1) * den ∧
      2 * roundQuotient num den * den ≤ 2 * num + den := by
  have split := Nat.div_add_mod num den
  have small := Nat.mod_lt num positive
  generalize whole_def : num / den = whole at *
  generalize rest_def : num % den = rest at *
  have expand : ∀ k : Nat, (2 * k + 1) * den = 2 * (den * k) + den := by
    intro k; rw [Nat.add_mul, Nat.one_mul, Nat.mul_assoc, Nat.mul_comm k den]
  have expand' : ∀ k : Nat, 2 * k * den = 2 * (den * k) := by
    intro k; rw [Nat.mul_assoc, Nat.mul_comm k den]
  simp only [roundQuotient, whole_def, rest_def]
  split
  · rw [expand, expand']; omega
  · split
    · rw [expand, expand', Nat.mul_add]; omega
    · split
      · rw [expand, expand']; omega
      · rw [expand, expand', Nat.mul_add]; omega

/-- A half goes to the even neighbour. -/
theorem roundQuotient_tie (num den : Nat) (tie : 2 * (num % den) = den) :
    roundQuotient num den % 2 = 0 := by
  simp only [roundQuotient, tie, Nat.lt_irrefl, if_false]
  split
  · assumption
  · omega

/-- The double nearest to a natural number. -/
def ofNat (n : Nat) : Float := Float.ofScientific n false 0

/-- The double nearest to an integer. -/
def ofInt (n : Int) : Float := if n < 0 then -ofNat n.natAbs else ofNat n.natAbs

/-- The double nearest to `digits * 10 ^ exponent`, where `digits` is written with `count` digits at
most; far outside the range of doubles it is infinite or zero. -/
def ofDecimal (digits count : Nat) (exponent : Int) : Float :=
  if digits = 0 then 0.0
  else if 310 < exponent then Float.ofScientific 1 false 400
  else if exponent + count < -400 then 0.0
  else if exponent < 0 then Float.ofScientific digits true exponent.natAbs
  else Float.ofScientific digits false exponent.natAbs

end Retouch.Number
