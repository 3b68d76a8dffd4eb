import SuiteMetrics.Text.Blank

/-!
Reading a table of Markdown.

Every line is a row, up to the first line with nothing but blanks. A line ends with a line feed, a
carriage return, or both in this order. Bars separate the cells of a row, and a bar at either end of
it may be left out. A bar behind a backslash belongs to the cell and loses the backslash. A blank
between a bar and the text of a cell belongs to neither.
-/

namespace SuiteMetrics.Render.Markdown

/-- A character in front of the first of several parts. -/
def prepend (c : Char) : List (List Char) → List (List Char)
  | [] => [[c]]
  | part :: parts => (c :: part) :: parts

/-- The lines of a text, with an empty one behind the last line end. -/
def textLines : List Char → List (List Char)
  | [] => [[]]
  | '\r' :: '\n' :: r => [] :: textLines r
  | '\r' :: r => [] :: textLines r
  | '\n' :: r => [] :: textLines r
  | c :: r => prepend c (textLines r)

/-- What stands between the bars of a line. -/
def pieces : List Char → List (List Char)
  | [] => [[]]
  | '\\' :: '|' :: r => prepend '|' (pieces r)
  | '|' :: r => [] :: pieces r
  | c :: r => prepend c (pieces r)

/-- A text without a blank at its start. -/
def dropBlank : List Char → List Char
  | ' ' :: r => r
  | r => r

/-- A piece without the blanks next to its bars. -/
def unpad (piece : List Char) : List Char := (dropBlank (dropBlank piece).reverse).reverse

/-- A line without a bar at its start. -/
def dropBar : List Char → List Char
  | '|' :: r => r
  | r => r

/-- The cells of a line. Behind a bar at the end there is none. -/
def cells (line : List Char) : List (List Char) :=
  let parts := pieces (dropBar line)
  (if parts.getLast? = some [] then parts.dropLast else parts).map unpad

/-- The rows of the table with which a text begins. -/
def read (s : String) : List (List String) :=
  ((textLines s.toList).takeWhile fun line => !line.all Text.isMarkupBlank).map fun line =>
    (cells line).map String.ofList

end SuiteMetrics.Render.Markdown
