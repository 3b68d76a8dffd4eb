/-!
Lines of a text.

A line feed ends a line, and a carriage return right before it belongs to the line's end. Text
after the last line feed is a line of its own when there is any, and keeps a carriage return.
-/

namespace SuiteMetrics.Text

/-- A line read backwards, without the carriage return that belongs to its end. -/
def dropReturn : List Char → List Char
  | '\r' :: r => r
  | r => r

/-- The lines of `current.reverse ++ s`, where `current` holds no line feed. -/
def linesFrom (current : List Char) : List Char → List (List Char)
  | [] => if current.isEmpty then [] else [current.reverse]
  | c :: r =>
    if c = '\n' then (dropReturn current).reverse :: linesFrom [] r
    else linesFrom (c :: current) r

/-- The lines of a text, without their ends. -/
def lines (s : List Char) : List (List Char) := linesFrom [] s

@[simp] theorem lines_nil : lines [] = [] := rfl

@[simp] theorem linesFrom_lineFeed (current r : List Char) :
    linesFrom current ('\n' :: r) = (dropReturn current).reverse :: lines r := by
  simp [linesFrom, lines]

end SuiteMetrics.Text
