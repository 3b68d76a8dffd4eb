/-!
The natural logarithm of a double.

The logarithm is computed in whole numbers of fixed-point units and rounded once, at the end, to the
nearest double. The argument is `s · 2 ^ e` with `s` between `2 ^ k` and `2 ^ (k + 1)`, so its
logarithm is that of `s / 2 ^ k`, which is less than two, and `e + k` times the logarithm of two.
The logarithm of a ratio `x` is twice the inverse hyperbolic tangent of `(x - 1) / (x + 1)`; there
this is at most a third and its series loses three bits with every term.
-/

namespace SuiteMetrics.Decimal

/-- The fixed-point form of one. -/
def fixedOne : Nat := Nat.pow 2 128

/-- Terms of the series `y + y³/3 + y⁵/5 + …`, from the one with a given power of `y` and its odd
exponent. -/
def artanhTerms (square : Nat) : Nat → Nat → Nat → Nat
  | 0, _, _ => 0
  | terms + 1, power, odd =>
    power / odd + artanhTerms square terms (power * square / fixedOne) (odd + 2)

/-- The inverse hyperbolic tangent, in fixed point, of a number that is at most a third. -/
def fixedArtanh (y : Nat) : Nat := artanhTerms (y * y / fixedOne) 48 y 1

/-- The logarithm of a ratio between one and two, in fixed point. -/
def fixedLogRatio (num den : Nat) : Nat :=
  2 * fixedArtanh ((num - den) * fixedOne / (num + den))

/-- The logarithm of two, in fixed point. -/
def fixedLogTwo : Nat := fixedLogRatio 2 1

/-- The logarithm of `significand · 2 ^ scale`, in fixed point. -/
def fixedLog (significand : Nat) (scale : Int) : Int :=
  fixedLogRatio significand (Nat.pow 2 significand.log2) + (scale + significand.log2) * fixedLogTwo

/-- The natural logarithm: that of zero is minus infinity, that of infinity is infinity, and a
negative number has none. -/
def log (x : Float) : Float :=
  match x.toModel.unpack with
  | .finite .positive significand scale _ =>
    Float.ofInt (fixedLog significand scale) / Float.ofNat fixedOne
  | .infinity .positive => x
  | .zero _ => -(1.0 / 0.0)
  | _ => 0.0 / 0.0

end SuiteMetrics.Decimal
