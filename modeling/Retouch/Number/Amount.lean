import Retouch.Number.Binary

/-!
# Amounts

Numbers as settings hold them: integers of any size, and doubles. They are compared as the exact numbers
that they stand for. Main statement: `smaller_whole`, the smaller of two whole amounts is their minimum.
-/
namespace Retouch.Number

/-- The exact value of a double as a quotient. -/
def Binary.quotient (b : Binary) : Int × Nat :=
  let (num, den) := b.scaled 0
  (if b.negative then -(num : Int) else num, den)

inductive Amount where
  | whole (n : Int)
  | decimal (x : Float)
  deriving Repr

namespace Amount

/-- Whether one amount is below another; nothing is below or above what is no number. -/
def below : Amount → Amount → Bool
  | .whole a, .whole b => decide (a < b)
  | .decimal a, .decimal b => a < b
  | .whole a, .decimal b =>
    match reading b with
    | .nan => false
    | .infinite negative => !negative
    | .finite b => decide (a * b.quotient.2 < b.quotient.1)
  | .decimal a, .whole b =>
    match reading a with
    | .nan => false
    | .infinite negative => negative
    | .finite a => decide (a.quotient.1 < b * a.quotient.2)

/-- The smaller one of two amounts, the first one of equal ones. -/
def smaller (a b : Amount) : Amount := if b.below a then b else a

/-- The nearest double, infinite when there is none. -/
def toFloat : Amount → Float
  | .whole n => ofInt n
  | .decimal x => x

/-- Whether the amount is within the range of doubles. -/
def hasFloat (a : Amount) : Bool :=
  match a with
  | .whole n => !(ofInt n).isInf
  | .decimal _ => true

/-- Powers of two from this one on are no doubles. -/
def powerLimit : Nat := 1024

/-- The amount times a power of two; for a double, the power has to be a double too. -/
def doubled? (a : Amount) (times : Nat) : Option Amount :=
  match a with
  | .whole n => some (.whole (n * Nat.pow 2 times))
  | .decimal x => if times < powerLimit then some (.decimal (x * ofNat (Nat.pow 2 times))) else none

/-- The smaller of two whole amounts is their minimum. -/
theorem smaller_whole (a b : Int) : smaller (.whole a) (.whole b) = .whole (min a b) := by
  unfold smaller below
  by_cases less : b < a
  · simp only [less, decide_true, if_true]
    rw [Int.min_eq_right (by omega)]
  · simp only [less, decide_false, Bool.false_eq_true, if_false]
    rw [Int.min_eq_left (by omega)]

end Amount

end Retouch.Number
