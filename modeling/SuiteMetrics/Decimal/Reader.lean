/-!
Reading a double from its decimal text.

A number is an optional sign, digits with an optional point among or around them, and an optional
exponent; at least one digit stands before the exponent. Infinities and NaN are read by name in
any case. The result is the double nearest to the written value.
-/

namespace SuiteMetrics.Decimal

/-- Whether a character is an ASCII digit. -/
def isDigit (c : Char) : Bool := '0' ≤ c && c ≤ '9'

/-- The value of a list of ASCII digits. -/
def digitsValue (ds : List Char) : Nat :=
  ds.foldl (fun n c => 10 * n + (c.toNat - '0'.toNat)) 0

/-- A text cut after its leading digits. -/
def spanDigits (s : List Char) : List Char × List Char := s.span isDigit

/-- The double nearest to `significand · 10 ^ exponent`. Far beyond the range of doubles the
power is not computed. -/
def nearestFloat (significand : Nat) (exponent : Int) : Float :=
  if significand = 0 then 0.0
  else
    let magnitude : Int := (Nat.toDigits 10 significand).length + exponent
    if magnitude > 400 then 1.0 / 0.0
    else if magnitude < -400 then 0.0
    else if exponent < 0 then Float.ofScientific significand true exponent.natAbs
    else Float.ofScientific significand false exponent.toNat

/-- An optional sign in front of a text: whether it is a minus, and what follows. -/
def takeSign : List Char → Bool × List Char
  | '-' :: r => (true, r)
  | '+' :: r => (false, r)
  | r => (false, r)

/-- The exponent after a mantissa, up to the end of the text. -/
def readExponent? : List Char → Option Int
  | [] => some 0
  | c :: r =>
    if c = 'e' ∨ c = 'E' then
      let (negative, ds) := takeSign r
      if ds.isEmpty || !ds.all isDigit then none
      else some (if negative then -(digitsValue ds : Int) else digitsValue ds)
    else none

/-- An unsigned decimal number up to the end of the text. -/
def readMagnitude? (s : List Char) : Option Float :=
  let (whole, r) := spanDigits s
  let (fraction, r) := match r with
    | '.' :: r => spanDigits r
    | r => ([], r)
  if whole.isEmpty && fraction.isEmpty then none
  else (readExponent? r).map fun e =>
    nearestFloat (digitsValue (whole ++ fraction)) (e - fraction.length)

/-- A double read from a whole text. -/
def readFloat? (s : List Char) : Option Float :=
  let (negative, r) := takeSign s
  let magnitude :=
    match String.ofList (r.map Char.toLower) with
    | "inf" | "infinity" => some (1.0 / 0.0)
    | "nan" => some (0.0 / 0.0)
    | _ => readMagnitude? r
  magnitude.map fun x => if negative then -x else x

end SuiteMetrics.Decimal
