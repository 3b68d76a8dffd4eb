import SuiteMetrics.Syntax.Node
import SuiteMetrics.Text.Blank
import SuiteMetrics.Text.Line

/-!
A parsed source: its tree, its text and the places of its syntax errors.

The size of a source is counted in lines. A line counts when it holds anything but blanks, and it
is a comment line when it starts with a comment opener or ends with a block comment's closer.
-/

namespace SuiteMetrics.Syntax

/-- A row and a byte column, both counted from zero. -/
structure Place where
  row : Nat
  column : Nat
  deriving DecidableEq, Repr, Inhabited

/-- The place of a syntax error: a stretch that fits no construct, or a missing token. -/
structure ErrorSite where
  /-- `ERROR` for a stretch, else the missing token. -/
  kind : String
  start : Place
  stop : Place
  deriving DecidableEq, Repr

/-- A parsed source. -/
structure Tree where
  root : Node
  source : String
  /-- Whether any part of the source fits no construct. -/
  hasError : Bool
  /-- The error sites in source order. -/
  errors : List ErrorSite

/-- A tree without syntax errors. -/
def Tree.ofRoot (root : Node) (source : String) : Tree := ⟨root, source, false, []⟩

/-! ### Size -/

/-- The number of lines that are not blank. -/
def linesOfCode (source : List Char) : Nat :=
  (Text.lines source).countP fun line => !(Text.trim line).isEmpty

/-- Whether a trimmed line opens, closes or continues a comment, judged by itself. -/
def isCommentLine (line : List Char) : Bool :=
  ['/', '/'].isPrefixOf line || ['/', '*'].isPrefixOf line || ['*', '/'].isSuffixOf line

/-- The number of comment lines. -/
def commentLines (source : List Char) : Nat :=
  (Text.lines source).countP fun line => isCommentLine (Text.trim line)

/-- The number of lines of a tree's source that are not blank. -/
def Tree.linesOfCode (t : Tree) : Nat := Syntax.linesOfCode t.source.toList

/-- The number of comment lines of a tree's source. -/
def Tree.commentLines (t : Tree) : Nat := Syntax.commentLines t.source.toList

end SuiteMetrics.Syntax
