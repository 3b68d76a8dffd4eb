import SuiteMetrics.Render.Cell

/-!
Plain text: scalars as `Key: value` lines, arrays as aligned columns.

A column is as wide as its widest cell or its key. Numbers stand on the right of their column and
everything else on the left; columns are two blanks apart, and a line has no blanks at its end.
-/

namespace SuiteMetrics.Render.Columns

open Json (Value Fields)

/-- A cell and the side on which it stands. -/
structure Entry where
  text : List Char
  /-- Whether the cell stands on the right. -/
  onRight : Bool
  deriving Inhabited

/-- The cell of a row in a column. -/
def Entry.ofRow (row : Fields) (column : String) : Entry :=
  let value := cell row column
  ⟨(displayText value).toList, value.isNumber⟩

/-- The cell of the header. -/
def Entry.ofKey (column : String) : Entry := ⟨column.toList, false⟩

/-- A cell filled up with blanks to a width. -/
def Entry.pad (width : Nat) (e : Entry) : List Char :=
  let blanks := List.replicate (width - e.text.length) ' '
  if e.onRight then blanks ++ e.text else e.text ++ blanks

/-- The least width that fits the cells of a column in all lines. -/
def width (grid : List (List Entry)) (column : Nat) : Nat :=
  (grid.filterMap fun cells => cells[column]?.map fun e => e.text.length).foldl max 0

/-- One line of a table. -/
def line (indent : List Char) (widths : List Nat) (entries : List Entry) : List Char :=
  let cells := entries.zipWith (fun e w => e.pad w) widths
  indent ++ Text.trimEnd ([' ', ' '].intercalate cells) ++ ['\n']

/-- The cells of a table, the header first. -/
def grid (columns : List String) (table : List Value) : List (List Entry) :=
  columns.map Entry.ofKey :: (rows table).map fun row => columns.map (Entry.ofRow row)

/-- The lines of a table with some columns. -/
def lines (indent : List Char) (columns : List String) (table : List Value) : List (List Char) :=
  let cells := grid columns table
  let widths := (List.range columns.length).map (width cells)
  cells.map (line indent widths)

/-- The text of a table, empty when its first element is no object. -/
def table (indent : List Char) (values : List Value) : String :=
  match columns? values with
  | none => ""
  | some columns => String.ofList (lines indent columns values).flatten

/-- One field of an object. -/
def entry (key : String) : Value → String
  | .array items => title key ++ ":\n" ++ table [' ', ' '] items
  | value => title key ++ ": " ++ displayText value ++ "\n"

/-- A value as plain text. -/
def render : Value → String
  | .object fields => String.join (fields.map fun (key, value) => entry key value)
  | .array items => table [] items
  | value => displayText value ++ "\n"

end SuiteMetrics.Render.Columns
