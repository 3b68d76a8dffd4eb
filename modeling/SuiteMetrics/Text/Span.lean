/-!
Byte spans of a text.

A span names the bytes from `start` up to `stop`, without `stop`, of a text in UTF-8. It need not
fit the text: a span that is reversed, ends beyond the text or cuts a character has no text.
-/

namespace SuiteMetrics.Text

/-- A range of bytes. -/
structure Span where
  start : Nat
  stop : Nat
  deriving DecidableEq, Repr, Inhabited

/-- The part of a text that a span covers, if the span fits. -/
def Span.text? (s : String) (span : Span) : Option String :=
  let start : String.Pos.Raw := ⟨span.start⟩
  let stop : String.Pos.Raw := ⟨span.stop⟩
  if span.start ≤ span.stop && start.isValid s && stop.isValid s then some (start.extract s stop)
  else none

end SuiteMetrics.Text
