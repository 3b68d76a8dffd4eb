import SuiteMetrics.Json.Value

/-!
JSON text of a value, on one line or indented by two blanks a level.

Quotes, backslashes and control characters are escaped, and nothing else. Doubles have the
shortest text that reads back.
-/

namespace SuiteMetrics.Json

/-- The hexadecimal digit of a number below sixteen. -/
def hexDigit (n : Nat) : Char := Nat.digitChar n

/-- The written form of one character of a string. -/
def escapeChar (c : Char) : List Char :=
  match c with
  | '"' => ['\\', '"']
  | '\\' => ['\\', '\\']
  | '\n' => ['\\', 'n']
  | '\r' => ['\\', 'r']
  | '\t' => ['\\', 't']
  | '\x08' => ['\\', 'b']
  | '\x0c' => ['\\', 'f']
  | c =>
    if c.toNat < 0x20 then
      ['\\', 'u', '0', '0', hexDigit (c.toNat / 16), hexDigit (c.toNat % 16)]
    else [c]

/-- A string between quotes. -/
def quote (s : String) : String :=
  String.ofList ('"' :: s.toList.flatMap escapeChar ++ ['"'])

/-- The text of a number. -/
def Number.text : Number → String
  | .integer n => toString n
  | .real x => Decimal.shortestText x

/-- What separates the parts of an array or object. -/
structure Layout where
  /-- After the opening bracket and after each comma, inside `depth` brackets. -/
  gap : Nat → String
  /-- Between a key and its value. -/
  colon : String

/-- Everything on one line without a blank. -/
def Layout.compact : Layout := ⟨fun _ => "", ":"⟩

/-- One item a line, indented by two blanks a level. -/
def Layout.pretty : Layout := ⟨fun depth => "\n" ++ "".pushn ' ' (2 * depth), ": "⟩

/-- Parts with commas between them, one level inside a bracket. -/
def bracket (layout : Layout) (depth : Nat) (opening closing : String) (parts : List String) :
    String :=
  if parts.isEmpty then opening ++ closing
  else
    let gap := layout.gap (depth + 1)
    opening ++ gap ++ ("," ++ gap).intercalate parts ++ layout.gap depth ++ closing

mutual

/-- The text of a value inside `depth` brackets. -/
def Value.render (layout : Layout) (depth : Nat) : Value → String
  | .null => "null"
  | .bool b => if b then "true" else "false"
  | .number n => n.text
  | .string s => quote s
  | .array items => bracket layout depth "[" "]" (renderItems layout (depth + 1) items)
  | .object fields => bracket layout depth "\x7b" "\x7d" (renderFields layout (depth + 1) fields)

/-- The texts of the items of an array. -/
def renderItems (layout : Layout) (depth : Nat) : List Value → List String
  | [] => []
  | item :: r => item.render layout depth :: renderItems layout depth r

/-- The texts of the fields of an object. -/
def renderFields (layout : Layout) (depth : Nat) : List (String × Value) → List String
  | [] => []
  | (key, value) :: r =>
    (quote key ++ layout.colon ++ value.render layout depth) :: renderFields layout depth r

end

/-- A value on one line. -/
def Value.compact (v : Value) : String := v.render .compact 0

/-- A value on indented lines. -/
def Value.pretty (v : Value) : String := v.render .pretty 0

end SuiteMetrics.Json
