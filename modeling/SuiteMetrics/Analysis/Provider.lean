import SuiteMetrics.Files.Selection
import SuiteMetrics.Java.Source

/-!
Where the trees of sources come from.

Analyses take trees from a provider, which may refuse a source. A source that cannot be read or is
refused has no tree. Bytes of a source that are no text are replaced before a provider sees them.
-/

namespace SuiteMetrics.Analysis

open Files (InputFile)
open Syntax (Tree)

/-- A way to make trees of sources: from the path and the text of a file its tree, or why there is
none. -/
abbrev Provider := (path source : String) → Except Failure Tree

namespace Provider

/-- The parser of Java, which makes a tree of every text. -/
def java : Provider := fun _ source => .ok (Java.parse source)

/-- The tree of a source file, if it can be read and is not refused. -/
def treeOf? (p : Provider) (f : InputFile) : Option Tree :=
  f.content.toOption.bind fun bytes => (p f.path (Text.Utf8.decodeLenient bytes)).toOption

/-- A file can be read, and the provider makes a tree of its text. -/
def Parses (p : Provider) (f : InputFile) : Prop :=
  ∃ bytes t, f.content = .ok bytes ∧ p f.path (Text.Utf8.decodeLenient bytes) = .ok t

/-- Exactly such files have a tree. -/
theorem parses_iff {p : Provider} {f : InputFile} : p.Parses f ↔ ∃ t, p.treeOf? f = some t := by
  have toOption {ε α : Type} {x : Except ε α} {a : α} : x.toOption = some a ↔ x = .ok a := by
    cases x <;> simp [Except.toOption]
  simp only [Parses, treeOf?, Option.bind_eq_some_iff, toOption]
  exact ⟨fun ⟨bytes, t, h⟩ => ⟨t, bytes, h⟩, fun ⟨t, bytes, h⟩ => ⟨bytes, t, h⟩⟩

end Provider

end SuiteMetrics.Analysis
