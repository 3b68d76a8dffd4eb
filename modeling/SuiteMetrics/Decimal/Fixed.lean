import SuiteMetrics.Decimal.Shortest

/-!
Decimals with a fixed number of places, and whole numbers of 64 bits.

The exact value of the double is rounded, a half to the even last digit.
-/

namespace SuiteMetrics.Decimal

/-- A finite double with `places` digits after the point. -/
def fixedText (places : Nat) (b : Binary64) : String :=
  let scaled := roundHalfEven (b.numerator * Nat.pow 10 places) b.denominator
  let ds := digitChars scaled
  let padded := List.replicate (places + 1 - ds.length) '0' ++ ds
  let whole := padded.take (padded.length - places)
  let text := if places = 0 then whole else whole ++ '.' :: padded.drop (padded.length - places)
  String.ofList (if b.negative then '-' :: text else text)

/-- The largest signed integer of 64 bits. -/
def int64Max : Int := Nat.pow 2 63 - 1

/-- The smallest signed integer of 64 bits. -/
def int64Min : Int := -Nat.pow 2 63

/-- The value of a finite double without its fraction, held to the signed integers of 64 bits. -/
def truncate64 (b : Binary64) : Int :=
  let whole : Int := if b.negative then -(b.floor : Int) else b.floor
  max int64Min (min int64Max whole)

end SuiteMetrics.Decimal
