import SuiteMetrics.Render.Cell

/-!
Tables with comma-separated fields.

A field that holds a comma, a quote or a line break is put in quotes, and quotes inside it are
doubled. A record is its fields with commas between them and a line feed at its end. The table's
first record is its header.
-/

namespace SuiteMetrics.Render.Csv

open Json (Value)

/-- Whether a character forces a field into quotes. -/
def forcesQuotes (c : Char) : Bool := c == ',' || c == '"' || c == '\n' || c == '\r'

/-- The inside of a quoted field. -/
def doubleQuotes (s : List Char) : List Char :=
  s.flatMap fun c => if c = '"' then ['"', '"'] else [c]

/-- The written form of a field. -/
def field (s : List Char) : List Char :=
  if s.any forcesQuotes then '"' :: doubleQuotes s ++ ['"'] else s

/-- The written form of a record. -/
def record (fields : List (List Char)) : List Char :=
  [','].intercalate (fields.map field) ++ ['\n']

/-- The written form of some records. -/
def write (records : List (List (List Char))) : List Char := records.flatMap record

/-- The records of a table: its header, then one for every object. -/
def records (table : List Value) : List (List (List Char)) :=
  match columns? table with
  | none => []
  | some columns =>
    columns.map String.toList :: (rows table).map fun row =>
      columns.map fun column => (plainText (cell row column)).toList

/-- The text of a table, empty when its first element is no object. -/
def table (values : List Value) : String := String.ofList (write (records values))

/-- The tables of a value: itself, or the arrays in an object that are not empty. -/
def tables : Value → List (List Value)
  | .array items => [items]
  | .object fields => fields.filterMap fun (_, value) =>
    match value with
    | .array [] => none
    | .array items => some items
    | _ => none
  | _ => []

/-- All tables of a value with blank lines between them. -/
def render (v : Value) : String := "\n".intercalate ((tables v).map table)

end SuiteMetrics.Render.Csv
