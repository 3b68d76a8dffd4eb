import SuiteMetrics.Java.Grammar

/-!
From Java source to its syntax tree.

A source that the grammar does not cover is a tree with one fault and nothing else. Analyses take
their trees from any provider, of which this parser is one.
-/

namespace SuiteMetrics.Java

open Syntax (Tree)

/-- The concrete tree of a source. A source that the grammar does not cover is one stretch that
fits nothing. -/
def Concrete.ofSource (source : List Char) : Concrete :=
  let scan := Scan.ofSource source
  let root (children : Forest) : Concrete := ⟨⟨.program, scan.first, scan.last, none⟩, children⟩
  match (program scan.tokens.length).run ⟨scan.tokens, scan.first, scan.tokens.length, rfl⟩ with
  | some (forest, _) => root forest
  | none => root [⟨⟨.fault, scan.first, scan.last, none⟩, []⟩]

/-- The syntax tree of a source. -/
def parse (source : String) : Tree :=
  let (root, faults) := (Concrete.ofSource source.toList).convert source
  ⟨root, source, !faults.isEmpty, faults⟩

end SuiteMetrics.Java
