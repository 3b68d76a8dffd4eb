import SuiteMetrics.Render.Columns
import SuiteMetrics.Render.Csv
import SuiteMetrics.Render.Markdown

/-!
The output formats.
-/

namespace SuiteMetrics.Render

open Json (Value)

/-- A format in which a report can be written. -/
inductive Format where
  | json
  | markdown
  | text
  | csv
  deriving DecidableEq, Repr, Inhabited

namespace Format

/-- The formats in the order in which they are offered. -/
def all : List Format := [.json, .markdown, .text, .csv]

/-- The written name of a format. -/
def name : Format → String
  | .json => "json"
  | .markdown => "markdown"
  | .text => "text"
  | .csv => "csv"

/-- The format with a written name. -/
def ofName? (s : String) : Option Format := all.find? fun f => f.name == s

/-- A character in lowercase, as far as that is an ASCII letter: the Kelvin sign is a capital of
`k` too. -/
def toLowercase (c : Char) : Char := if c = '\u212a' then 'k' else c.toLower

/-- The format that a user names, in any case and also by a common file ending. -/
def ofChoice? (s : String) : Option Format :=
  match s.map toLowercase with
  | "text" | "txt" => some .text
  | "json" => some .json
  | "md" | "markdown" => some .markdown
  | "csv" => some .csv
  | _ => none

/-- What a user is told about a name that is no format's. -/
def unknown (s : String) : String :=
  "Unknown format: " ++ s ++ ". Use 'text', 'json', 'md' or 'csv'"

/-- A value in a format. -/
def render : Format → Value → String
  | .json, v => v.pretty ++ "\n"
  | .markdown, v => Markdown.render v
  | .text, v => Columns.render v
  | .csv, v => Csv.render v

end Format

end SuiteMetrics.Render
