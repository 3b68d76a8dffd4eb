/-!
A finite double as an exact quantity.

A finite double is `± significand · 2 ^ scale` with a natural significand, so all questions about
its decimal text are questions about natural numbers. Doubles are also put into a total order
here, in which `-0.0` comes before `0.0` and every NaN after infinity.
-/

namespace SuiteMetrics.Decimal

/-- A finite double, taken apart: its value is `± significand · 2 ^ scale`. -/
structure Binary64 where
  /-- Whether the sign bit is set, also for zero. -/
  negative : Bool
  significand : Nat
  scale : Int
  /-- Whether the gap to the next smaller magnitude is half the gap to the next larger one. -/
  narrowBelow : Bool

namespace Binary64

/-- The parts of a finite double, and `none` for an infinity or a NaN. -/
def ofFloat? (x : Float) : Option Binary64 :=
  let bits := x.toBits.toNat
  let exponent := bits / Nat.pow 2 52 % 2048
  let fraction := bits % Nat.pow 2 52
  if exponent = 2047 then none
  else some {
    negative := bits / Nat.pow 2 63 = 1
    significand := if exponent = 0 then fraction else fraction + Nat.pow 2 52
    scale := ((if exponent = 0 then 1 else exponent : Nat) : Int) - 1075
    narrowBelow := fraction = 0 && exponent > 1 }

/-- The numerator of the magnitude over `denominator`. -/
def numerator (b : Binary64) : Nat := b.significand * Nat.pow 2 b.scale.toNat

/-- The power of two under `numerator`. -/
def denominator (b : Binary64) : Nat := Nat.pow 2 (-b.scale).toNat

/-- The magnitude without its fractional part. -/
def floor (b : Binary64) : Nat := b.numerator / b.denominator

/-- Whether the value is a whole number. -/
def isWhole (b : Binary64) : Bool := b.numerator % b.denominator = 0

end Binary64

/-- The place of a double in the total order of doubles: negative values in descending order of
their bits, then positive values in ascending order. -/
def orderKey (x : Float) : Int :=
  let bits := x.toBits.toNat
  if bits < Nat.pow 2 63 then bits else Nat.pow 2 63 - 1 - bits

/-- The total order of doubles. -/
def totalLe (x y : Float) : Bool := orderKey x ≤ orderKey y

/-- A quotient rounded to the nearest natural number, a half to the even neighbour. -/
def roundHalfEven (num den : Nat) : Nat :=
  let q := num / den
  let twice := 2 * (num % den)
  if twice < den then q
  else if den < twice then q + 1
  else if q % 2 = 0 then q else q + 1

end SuiteMetrics.Decimal
