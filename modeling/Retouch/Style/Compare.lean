import Retouch.Style.Value

/-!
# Comparing style values

Two values are equal when they have the same shape and the same parts. They are close when the same
holds but for the channels and opacities of colors, which may differ by a tolerance, or by a
billionth of the larger one.
-/
namespace Retouch.Style

/-- A tolerance below zero. -/
inductive CompareError where
  | negativeTolerance
  deriving DecidableEq, Repr

def CompareError.message : CompareError → String
  | .negativeTolerance => "tolerances must be non-negative"

/-- The distance of two numbers. -/
def distance (a b : Float) : Float := if a ≤ b then b - a else a - b

/-- Equal, or within the tolerance, or within a billionth of one of the two. -/
def numbersClose (tolerance a b : Float) : Bool :=
  a == b || (!a.isInf && !b.isInf &&
    (distance a b ≤ (1e-9 * b).abs || distance a b ≤ (1e-9 * a).abs || distance a b ≤ tolerance))

/-- How colors are compared. -/
inductive Precision where
  | exact
  | within (tolerance : Float)

def Color.agrees (precision : Precision) (a b : Color) : Except CompareError Bool :=
  if a.space ≠ b.space then .ok false
  else match precision with
    | .exact => .ok (a.alpha == b.alpha && a.channels == b.channels)
    | .within tolerance =>
      if tolerance < 0.0 then .error .negativeTolerance
      else .ok (numbersClose tolerance a.channels.first b.channels.first &&
        numbersClose tolerance a.channels.second b.channels.second &&
        numbersClose tolerance a.channels.third b.channels.third &&
        numbersClose tolerance a.alpha b.alpha)

namespace Value

mutual

def agrees (precision : Precision) : Value → Value → Except CompareError Bool
  | .unit x u, .unit y v => .ok (x == y && u == v)
  | .number x, .number y => .ok (x == y)
  | .keyword s, .keyword t => .ok (s == t)
  | .unparsed s, .unparsed t => .ok (s == t)
  | .color a, .color b => a.agrees precision b
  | .var m none, .var n none => .ok (m == n)
  | .var m (some a), .var n (some b) => if m == n then agrees precision a b else .ok false
  | .tuple xs, .tuple ys =>
    if xs.length = ys.length then agreeAll precision xs ys else .ok false
  | _, _ => .ok false
termination_by structural a => a

def agreeAll (precision : Precision) : List Value → List Value → Except CompareError Bool
  | x :: xs, y :: ys => do
    if ← agrees precision x y then agreeAll precision xs ys else return false
  | _, _ => .ok true
termination_by structural xs => xs

end

/-- The same shape and the same parts. -/
def same (a b : Value) : Bool :=
  match agrees .exact a b with
  | .ok answer => answer
  | .error _ => false

/-- The difference of channels that is accepted unless another is given. -/
def defaultTolerance : Float := 0.01

/-- The same shape and the same parts, colors within a tolerance. -/
def close (a b : Value) (tolerance : Float) : Except CompareError Bool :=
  agrees (.within tolerance) a b

end Value

end Retouch.Style
