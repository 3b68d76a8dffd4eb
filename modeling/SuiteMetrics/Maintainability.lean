import SuiteMetrics.Decimal.Logarithm

/-!
Comment density and the maintainability index of a file.
-/

namespace SuiteMetrics

/-- Comment lines per line of code, absent for a file without code. -/
def commentDensity? (loc commentLines : Nat) : Option Float :=
  if loc = 0 then none else some (Float.ofNat commentLines / Float.ofNat loc)

/-- A double held between two bounds. -/
def clamp (low high x : Float) : Float :=
  let x := if x < low then low else x
  if high < x then high else x

/-- The least comment density that the index tells apart. -/
def leastDensity : Float := 0.01

/-- The comment density that the index uses. -/
def effectiveDensity (density : Float) : Float :=
  if leastDensity < density then density else leastDensity

/-- The index before it is held between its bounds. -/
def rawMaintainability (loc : Nat) (density cyclomatic : Float) : Float :=
  let index := 171.0 - 5.2 * Decimal.log (Float.ofNat loc) - 0.23 * cyclomatic -
    16.2 * Decimal.log (effectiveDensity density)
  index * 100.0 / 171.0

/-- The maintainability index between 0 and 100, absent for a file without code. A file without
comments has the index 0. -/
def maintainability? (loc commentLines : Nat) (cyclomatic : Float) : Option Float :=
  (commentDensity? loc commentLines).map fun density =>
    if commentLines = 0 then 0.0 else clamp 0.0 100.0 (rawMaintainability loc density cyclomatic)

end SuiteMetrics
