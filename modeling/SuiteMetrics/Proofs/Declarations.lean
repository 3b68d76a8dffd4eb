import SuiteMetrics.Proofs.Placed
import SuiteMetrics.Scoring.Walk

/-!
The declarations of a tree and what is listed for them.

The methods and constructors of a tree are listed in pre-order (`methods_eq`), and the list of their
scores has one entry for each, which is read off the declaration alone (`methodScores_eq_map`).
-/

namespace SuiteMetrics.Scoring

open Syntax (Node Tree)

/-- The declarations among some trees in pre-order. -/
def declarationsIn (ns : List Node) : List Node :=
  (Node.preorderAll ns).filter fun n => n.kind.isMethod

theorem methods_eq (t : Tree) : methods t = declarationsIn [t.root] := by
  rw [methods, Node.descendants_eq_preorder, declarationsIn, Node.preorderAll, Node.preorderAll,
    List.append_nil]

/-- What is listed for one declaration. -/
def methodScore (traversal : Traversal) (policy : Policy) (t : Tree) (n : Node) : MethodScore :=
  let name := methodName t.source n
  ⟨name, n.startRow + 1, n.endRow + 1, score traversal ⟨policy, t.source, some name⟩ n⟩

theorem methodScores_eq_map (traversal : Traversal) (policy : Policy) (t : Tree) :
    methodScores traversal policy t = (methods t).map (methodScore traversal policy t) := rfl

end SuiteMetrics.Scoring
