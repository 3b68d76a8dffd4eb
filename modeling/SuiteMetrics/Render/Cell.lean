import SuiteMetrics.Json.Writer
import SuiteMetrics.Text.Blank
import SuiteMetrics.Text.Uppercase

/-!
Cells and columns of a table of JSON objects.

The first row of a table fixes its columns. Two renderings of a value are used: `plainText` for
data, where a number keeps its full text, and `displayText` for readers, where a number is shown
whole or with two places.
-/

namespace SuiteMetrics.Render

open Json (Value Fields Number)

/-- The columns of a table: the keys of its first row, if that is an object. -/
def columns? : List Value → Option (List String)
  | .object fields :: _ => some (Fields.keys fields)
  | _ => none

/-- The rows of a table; whatever is no object is left out. -/
def rows (table : List Value) : List Fields := table.filterMap Value.fields?

/-- The value of a row in a column, null if the row has none. -/
def cell (row : Fields) (column : String) : Value := (Fields.get? row column).getD .null

/-- What stands for a value that is not there. -/
def absent : String := "N/A"

/-- A value as data. -/
def plainText : Value → String
  | .null => absent
  | .bool b => if b then "true" else "false"
  | .number n => n.text
  | .string s => s
  | other => other.compact

/-- A double for a reader: whole numbers, held to 64 bits, without a point, all others with two
places. -/
def displayFloat (x : Float) : String :=
  match Decimal.Binary64.ofFloat? x with
  | none => Decimal.shortestText x
  | some b => if b.isWhole then toString (Decimal.truncate64 b) else Decimal.fixedText 2 b

/-- A value for a reader. -/
def displayText : Value → String
  | .null => absent
  | .bool b => if b then "Yes" else "No"
  | .number n => displayFloat n.toFloat
  | .string s => s
  | other => other.compact

/-- A key as a title: its words, which underscores part too, each with a capital. -/
def title (key : String) : String :=
  let spaced := key.toList.map fun c => if c = '_' then ' ' else c
  " ".intercalate ((Text.words spaced).map fun word => String.ofList (Text.capitalize word))

end SuiteMetrics.Render
