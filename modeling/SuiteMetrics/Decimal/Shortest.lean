import SuiteMetrics.Decimal.Binary64

/-!
The shortest decimal that reads back as a given double.

Every double owns an interval of reals that round to it; the ends belong to it when the
significand is even. For one digit, two digits, and so on up to seventeen, the two neighbours of
the value on that decimal grid are tried, and the first grid with a neighbour in the interval
gives the digits: the nearer neighbour, if both lie in it.
-/

namespace SuiteMetrics.Decimal

/-- A positive decimal `digits · 10 ^ exponent`. -/
structure Scientific where
  digits : Nat
  exponent : Int

/-- The least `k` with `num / den < 10 ^ k`, for a positive quotient. -/
def decimalMagnitude (num den : Nat) : Int :=
  let below (k : Int) : Bool := num * Nat.pow 10 (-k).toNat < den * Nat.pow 10 k.toNat
  let guess : Int := ((num.log2 : Int) - den.log2 - 1) * 30103 / 100000
  if below guess then guess
  else if below (guess + 1) then guess + 1
  else if below (guess + 2) then guess + 2
  else guess + 3

/-- The best decimal of the grid `10 ^ exponent` that lies in the interval of a nonzero
double. -/
def nearestOnGrid? (b : Binary64) (exponent : Int) : Option Scientific :=
  -- All lengths are counted in quarters of a unit of the significand, scaled by `up / down`.
  let up := Nat.pow 2 (b.scale - 2).toNat * Nat.pow 10 (-exponent).toNat
  let down := Nat.pow 2 (2 - b.scale).toNat * Nat.pow 10 exponent.toNat
  let value := 4 * b.significand * up
  let low := (4 * b.significand - if b.narrowBelow then 1 else 2) * up
  let high := (4 * b.significand + 2) * up
  let closed := b.significand % 2 = 0
  let inside (d : Nat) : Bool :=
    if closed then low ≤ d * down && d * down ≤ high else low < d * down && d * down < high
  let below := value / down
  let above := below + 1
  let nearBelow := value - below * down
  let nearAbove := above * down - value
  let prefersBelow := nearBelow < nearAbove || (nearBelow = nearAbove && below % 2 = 0)
  if inside below && (prefersBelow || !inside above) then some ⟨below, exponent⟩
  else if inside above then some ⟨above, exponent⟩
  else none

/-- The first grid, from `count` digits on, that has a decimal in the interval. -/
def shortestFrom (b : Binary64) (magnitude : Int) : Nat → Nat → Scientific
  | 0, count => ⟨b.numerator / b.denominator, count⟩
  | fuel + 1, count =>
    match nearestOnGrid? b (magnitude - count) with
    | some d => d
    | none => shortestFrom b magnitude fuel (count + 1)

/-- A decimal without zeros at the end of its digits. -/
def Scientific.strip (s : Scientific) : Nat → Scientific
  | 0 => s
  | fuel + 1 =>
    if s.digits ≠ 0 ∧ s.digits % 10 = 0 then
      Scientific.strip ⟨s.digits / 10, s.exponent + 1⟩ fuel
    else s

/-- The shortest decimal that reads back as the magnitude of a nonzero double. Seventeen digits
are always enough. -/
def shortest (b : Binary64) : Scientific :=
  (shortestFrom b (decimalMagnitude b.numerator b.denominator) 17 1).strip 20

/-! ### Its text -/

/-- The digits of a natural number. -/
def digitChars (n : Nat) : List Char := Nat.toDigits 10 n

/-- How a double is written in JSON and CSV: positionally from `1e-5` to below `1e16` with at
least one digit after the point, else with a signed exponent. -/
structure ExponentForm where
  /-- The least decimal magnitude that is written positionally. -/
  lowest : Int
  /-- The greatest decimal magnitude that is written positionally. -/
  highest : Int

/-- The form that data formats use. -/
def ExponentForm.data : ExponentForm := ⟨-4, 16⟩

/-- The text of a positive decimal. -/
def Scientific.text (form : ExponentForm) (s : Scientific) : List Char :=
  let ds := digitChars s.digits
  let magnitude : Int := s.exponent + ds.length
  if form.lowest ≤ magnitude ∧ magnitude ≤ form.highest then
    if s.exponent ≥ 0 then ds ++ List.replicate s.exponent.toNat '0' ++ ['.', '0']
    else if magnitude > 0 then ds.take magnitude.toNat ++ '.' :: ds.drop magnitude.toNat
    else '0' :: '.' :: List.replicate (-magnitude).toNat '0' ++ ds
  else
    let exponent := magnitude - 1
    let sign := if exponent < 0 then '-' else '+'
    let fraction := if ds.length ≤ 1 then [] else '.' :: ds.drop 1
    ds.take 1 ++ fraction ++ 'e' :: sign :: digitChars exponent.natAbs

/-- The shortest text that reads back as a double; infinities and NaN by name. -/
def shortestText (x : Float) : String :=
  match Binary64.ofFloat? x with
  | none => if x.isNaN then "NaN" else if x < 0 then "-inf" else "inf"
  | some b =>
    let magnitude :=
      if b.significand = 0 then ['0', '.', '0'] else (shortest b).text ExponentForm.data
    String.ofList (if b.negative then '-' :: magnitude else magnitude)

end SuiteMetrics.Decimal
