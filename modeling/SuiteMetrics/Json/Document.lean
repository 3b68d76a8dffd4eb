import SuiteMetrics.Json.Value
import SuiteMetrics.Decimal.Reader
import SuiteMetrics.Text.Blank

/-!
The structure of a JSON text.

A `Document` is what the grammar of JSON says a text is made of: numbers are kept as written, all
fields of an object are kept in order with repeated keys, and a string whose escapes make no text
(half of a surrogate pair) is kept as such. Readers of a document decide what of that they accept;
`Document.value?` accepts what fits the value type, with arrays and objects inside one another at
most 127 deep.
-/

namespace SuiteMetrics.Json

open Decimal (isDigit spanDigits digitsValue)

/-- A number as written. -/
structure Literal where
  negative : Bool
  whole : List Char
  /-- The digits after the point, if a point was written. -/
  fraction : Option (List Char)
  /-- The exponent, if one was written. -/
  exponent : Option Int

/-- The parts of a JSON text. A string is absent when its escapes make no text. -/
inductive Document where
  | null
  | bool (b : Bool)
  | number (n : Literal)
  | string (s : Option String)
  | array (items : List Document)
  | object (fields : List (Option String × Document))

/-- The text after the blanks at its start. -/
def skipBlanks (s : List Char) : List Char := s.dropWhile Text.isMarkupBlank

/-! ### Strings -/

/-- The value of a hexadecimal digit. -/
def hexValue? (c : Char) : Option Nat :=
  if '0' ≤ c && c ≤ '9' then some (c.toNat - '0'.toNat)
  else if 'a' ≤ c && c ≤ 'f' then some (c.toNat - 'a'.toNat + 10)
  else if 'A' ≤ c && c ≤ 'F' then some (c.toNat - 'A'.toNat + 10)
  else none

/-- The 16-bit unit of four hexadecimal digits. -/
def unit? (a b c d : Char) : Option Nat := do
  let a ← hexValue? a
  let b ← hexValue? b
  let c ← hexValue? c
  let d ← hexValue? d
  pure (((a * 16 + b) * 16 + c) * 16 + d)

/-- The character of an escape with one letter. -/
def escaped? : Char → Option Char
  | '"' => some '"'
  | '\\' => some '\\'
  | '/' => some '/'
  | 'b' => some '\x08'
  | 'f' => some '\x0c'
  | 'n' => some '\n'
  | 'r' => some '\r'
  | 't' => some '\t'
  | _ => none

/-- Whether a unit is the first half of a surrogate pair. -/
def isHighSurrogate (n : Nat) : Bool := 0xD800 ≤ n && n < 0xDC00

/-- Whether a unit is the second half of a surrogate pair. -/
def isLowSurrogate (n : Nat) : Bool := 0xDC00 ≤ n && n < 0xE000

/-- One character added to the text read so far, which is kept backwards. -/
def extend (read : Option (List Char)) (c : Char) : Option (List Char) := read.map (c :: ·)

/-- The characters of a string after its opening quote, and the text after its closing quote. -/
def readChars (read : Option (List Char)) : List Char → Option (Option (List Char) × List Char)
  | [] => none
  | '"' :: r => some (read.map List.reverse, r)
  | '\\' :: 'u' :: a :: b :: c :: d :: '\\' :: 'u' :: e :: f :: g :: h :: r =>
    match unit? a b c d, unit? e f g h with
    | some high, some low =>
      if isHighSurrogate high && isLowSurrogate low then
        readChars (extend read (Char.ofNat (0x10000 + (high - 0xD800) * 0x400 + (low - 0xDC00)))) r
      else if isHighSurrogate high || isLowSurrogate high then
        readChars none ('\\' :: 'u' :: e :: f :: g :: h :: r)
      else
        readChars (extend read (Char.ofNat high)) ('\\' :: 'u' :: e :: f :: g :: h :: r)
    | _, _ => none
  | '\\' :: 'u' :: a :: b :: c :: d :: r =>
    match unit? a b c d with
    | some unit =>
      if isHighSurrogate unit || isLowSurrogate unit then readChars none r
      else readChars (extend read (Char.ofNat unit)) r
    | none => none
  | '\\' :: c :: r =>
    match escaped? c with
    | some c => readChars (extend read c) r
    | none => none
  | c :: r => if c.toNat < 0x20 then none else readChars (extend read c) r

/-- A string after its opening quote. -/
def readString (s : List Char) : Option (Option String × List Char) :=
  (readChars (some []) s).map fun (read, r) => (read.map String.ofList, r)

/-! ### Numbers -/

/-- The digits after a point, if a point follows. -/
def readFraction : List Char → Option (Option (List Char) × List Char)
  | '.' :: r =>
    let (ds, r) := spanDigits r
    if ds.isEmpty then none else some (some ds, r)
  | r => some (none, r)

/-- An exponent, if one follows. -/
def readExponent : List Char → Option (Option Int × List Char)
  | c :: r =>
    if c = 'e' ∨ c = 'E' then
      let (negative, r) := Decimal.takeSign r
      let (ds, r) := spanDigits r
      if ds.isEmpty then none
      else some (some (if negative then -(digitsValue ds : Int) else digitsValue ds), r)
    else some (none, c :: r)
  | [] => some (none, [])

/-- A number: no zero stands in front of another digit, and a point has digits on both sides. -/
def readNumber (s : List Char) : Option (Literal × List Char) := do
  let (negative, r) := match s with
    | '-' :: r => (true, r)
    | r => (false, r)
  let (whole, r) := spanDigits r
  if whole.isEmpty || (whole.head? = some '0' && whole.length > 1) then none
  let (fraction, r) ← readFraction r
  let (exponent, r) ← readExponent r
  pure (⟨negative, whole, fraction, exponent⟩, r)

/-- A word that must follow. -/
def readWord (word : String) (d : Document) (s : List Char) : Option (Document × List Char) :=
  if word.toList.isPrefixOf s then some (d, s.drop word.length) else none

/-! ### Arrays, objects and whole texts -/

mutual

/-- A value and the text after it. `fuel` bounds the length of the text. -/
def readValue : Nat → List Char → Option (Document × List Char)
  | 0, _ => none
  | fuel + 1, s =>
    match skipBlanks s with
    | '"' :: r => (readString r).map fun (text, r) => (.string text, r)
    | '[' :: r =>
      match skipBlanks r with
      | ']' :: r => some (.array [], r)
      | r => (readItems fuel r).map fun (items, r) => (.array items, r)
    | '\x7b' :: r =>
      match skipBlanks r with
      | '\x7d' :: r => some (.object [], r)
      | r => (readFields fuel r).map fun (fields, r) => (.object fields, r)
    | 'n' :: r => readWord "null" .null ('n' :: r)
    | 't' :: r => readWord "true" (.bool true) ('t' :: r)
    | 'f' :: r => readWord "false" (.bool false) ('f' :: r)
    | r => (readNumber r).map fun (n, r) => (.number n, r)

/-- The items of an array, up to and with its closing bracket. -/
def readItems : Nat → List Char → Option (List Document × List Char)
  | 0, _ => none
  | fuel + 1, s =>
    match readValue fuel s with
    | none => none
    | some (item, r) =>
      match skipBlanks r with
      | ',' :: r => (readItems fuel r).map fun (items, r) => (item :: items, r)
      | ']' :: r => some ([item], r)
      | _ => none

/-- The fields of an object, up to and with its closing brace. -/
def readFields : Nat → List Char → Option (List (Option String × Document) × List Char)
  | 0, _ => none
  | fuel + 1, s =>
    match skipBlanks s with
    | '"' :: r =>
      match readString r with
      | none => none
      | some (key, r) =>
        match skipBlanks r with
        | ':' :: r =>
          match readValue fuel r with
          | none => none
          | some (value, r) =>
            match skipBlanks r with
            | ',' :: r => (readFields fuel r).map fun (fields, r) => ((key, value) :: fields, r)
            | '\x7d' :: r => some ([(key, value)], r)
            | _ => none
        | _ => none
    | _ => none

end

/-- The document that a whole text is, blanks around it apart. -/
def Document.ofText? (s : List Char) : Option Document :=
  match readValue (2 * s.length + 2) s with
  | some (d, r) => if (skipBlanks r).isEmpty then some d else none
  | none => none

/-! ### Values -/

/-- The double nearest to a number as written. -/
def Literal.float (n : Literal) : Float :=
  let fraction := n.fraction.getD []
  let magnitude := Decimal.nearestFloat (digitsValue (n.whole ++ fraction))
    (n.exponent.getD 0 - fraction.length)
  if n.negative then -magnitude else magnitude

/-- The number that a literal stands for: whole numbers of 64 bits stay whole, a negative zero and
all else is a double. Numbers beyond the doubles are refused. -/
def Literal.number? (n : Literal) : Option Number :=
  let real := if n.float.isFinite then some (.real n.float) else none
  match n.fraction, n.exponent with
  | none, none =>
    let magnitude := digitsValue n.whole
    if n.negative then
      if 0 < magnitude ∧ magnitude ≤ Nat.pow 2 63 then some (.integer (-(magnitude : Int))) else real
    else if magnitude < Nat.pow 2 64 then some (.integer magnitude) else real
  | _, _ => real

/-- The value of a document, with room for `depth` brackets inside one another. -/
def Document.valueWithin? : Nat → Document → Option Value
  | _, .null => some .null
  | _, .bool b => some (.bool b)
  | _, .number n => n.number?.map .number
  | _, .string s => s.map .string
  | 0, .array _ => none
  | 0, .object _ => none
  | depth + 1, .array items => (items.mapM (Document.valueWithin? depth)).map .array
  | depth + 1, .object fields =>
    (fields.mapM fun (field : Option String × Document) => do
        let key ← field.1
        let value ← Document.valueWithin? depth field.2
        pure (key, value)).map
      fun fields => .object (Fields.insertAll [] fields)

/-- The value of a document: of a repeated key the last value counts. -/
def Document.value? (d : Document) : Option Value := d.valueWithin? 127

/-- The value of a whole text. -/
def Value.ofText? (s : String) : Option Value := (Document.ofText? s.toList).bind Document.value?

end SuiteMetrics.Json
