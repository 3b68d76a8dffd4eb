import SuiteMetrics.Render.Cell

/-!
Markdown: scalars as bold keys, arrays as tables under a heading.
-/

namespace SuiteMetrics.Render.Markdown

open Json (Value)

/-- A line of a table from the texts of its cells. -/
def line (cells : List String) : String :=
  "|" ++ String.join (cells.map fun cell => " " ++ cell ++ " |") ++ "\n"

/-- The lines of a table with some columns: the header, a separator and one line for every
object. -/
def lines (columns : List String) (table : List Value) : List String :=
  line (columns.map title) :: line (columns.map fun _ => "---") ::
    (rows table).map fun row => line (columns.map fun column => displayText (cell row column))

/-- A table and a blank line. -/
def table (values : List Value) : String :=
  match columns? values with
  | none => "_No rows_\n\n"
  | some columns => String.join (lines columns values) ++ "\n"

/-- One field of an object. -/
def field (key : String) : Value → String
  | .array items => "# " ++ title key ++ "\n\n" ++ table items
  | value => "**" ++ title key ++ "**: " ++ displayText value ++ "\n\n"

/-- A value in Markdown. -/
def render : Value → String
  | .object fields => String.join (fields.map fun (key, value) => field key value)
  | .array items => table items
  | value => displayText value ++ "\n\n"

end SuiteMetrics.Render.Markdown
