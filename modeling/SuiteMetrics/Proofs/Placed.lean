import Mathlib.Data.List.Chain
import SuiteMetrics.Syntax.Node

/-!
Nodes where they stand in a tree.

A `Placed` node comes with the nodes on the way to it from the root, the root left out.
`Node.placedBelow` lists the nodes below a root in this form. Without the ways the list is the
pre-order enumeration, so every node below the root is listed once for each place at which it stands
(`preorder_eq_placedBelow`), and every way goes up from child to parent (`isChain_of_mem_placed`).
-/

namespace SuiteMetrics.Syntax

/-- A node and the nodes above it, the nearest first. The root of the tree is not among them. -/
structure Placed where
  above : List Node
  node : Node

namespace Node

mutual

/-- A node and all nodes below it, where some nodes stand above it. -/
def placed (above : List Node) : Node → List Placed
  | ⟨kind, span, name, startRow, endRow, children⟩ =>
    ⟨above, ⟨kind, span, name, startRow, endRow, children⟩⟩ ::
      placedAll (⟨kind, span, name, startRow, endRow, children⟩ :: above) children

/-- The nodes of some trees, one tree after the other, where some nodes stand above them. -/
def placedAll (above : List Node) : List Node → List Placed
  | [] => []
  | n :: r => n.placed above ++ placedAll above r

end

/-- The nodes below a root in pre-order. -/
def placedBelow (root : Node) : List Placed := placedAll [] root.children

theorem placed_eq (above : List Node) (n : Node) :
    n.placed above = ⟨above, n⟩ :: placedAll (n :: above) n.children := by
  cases n
  rfl

/-! ### Every place is listed once -/

mutual

theorem map_node_placed (above : List Node) :
    ∀ n : Node, (n.placed above).map Placed.node = n.preorder
  | ⟨kind, span, name, startRow, endRow, children⟩ => by
      simp only [placed, preorder, List.map_cons, List.cons.injEq, true_and]
      exact map_node_placedAll _ children

theorem map_node_placedAll (above : List Node) :
    ∀ ns : List Node, (placedAll above ns).map Placed.node = preorderAll ns
  | [] => rfl
  | n :: r => by
      rw [placedAll, preorderAll, List.map_append, map_node_placed above n,
        map_node_placedAll above r]

end

/-- Without the ways to them, the nodes below a root are those that follow it in pre-order. -/
theorem preorder_eq_placedBelow (root : Node) :
    root.preorder = root :: root.placedBelow.map Placed.node := by
  rw [placedBelow, map_node_placedAll, preorder_eq]

/-- What a stack of pending nodes lists is their trees in pre-order, one after the other. -/
theorem drain_eq_preorderAll (pending : List Node) : drain pending = preorderAll pending := by
  fun_induction drain pending with
  | case1 => rfl
  | case2 n pending ih =>
      rw [ih, preorderAll_append, preorderAll, preorder_eq, List.cons_append]

/-- Both enumerations of a tree are the same. -/
theorem descendants_eq_preorder (n : Node) : n.descendants = n.preorder := by
  rw [descendants, drain_eq_preorderAll, preorderAll, preorderAll, List.append_nil]

/-! ### The nodes above -/

mutual

/-- What stands above a node stands above all that is listed from it on. -/
theorem suffix_of_mem_placed {above : List Node} {p : Placed} :
    ∀ n : Node, p ∈ n.placed above → above <:+ p.above
  | ⟨kind, span, name, startRow, endRow, children⟩, h => by
      rw [placed, List.mem_cons] at h
      rcases h with rfl | h
      · exact List.suffix_refl above
      · exact (List.suffix_cons _ above).trans (suffix_of_mem_placedAll children h)

theorem suffix_of_mem_placedAll {above : List Node} {p : Placed} :
    ∀ ns : List Node, p ∈ placedAll above ns → above <:+ p.above
  | [], h => by simp [placedAll] at h
  | n :: r, h => by
      rw [placedAll, List.mem_append] at h
      rcases h with h | h
      · exact suffix_of_mem_placed n h
      · exact suffix_of_mem_placedAll r h

end

mutual

/-- From a node on the way up goes from child to parent. -/
theorem isChain_of_mem_placed {above : List Node} {p : Placed} : ∀ n : Node,
    (n :: above).IsChain (fun child parent => child ∈ parent.children) → p ∈ n.placed above →
      (p.node :: p.above).IsChain fun child parent => child ∈ parent.children
  | ⟨kind, span, name, startRow, endRow, children⟩, chain, h => by
      rw [placed, List.mem_cons] at h
      rcases h with rfl | h
      · exact chain
      · exact isChain_of_mem_placedAll children
          (fun m mem => List.isChain_cons_cons.mpr ⟨mem, chain⟩) h

theorem isChain_of_mem_placedAll {above : List Node} {p : Placed} : ∀ ns : List Node,
    (∀ n ∈ ns, (n :: above).IsChain fun child parent => child ∈ parent.children) →
      p ∈ placedAll above ns →
        (p.node :: p.above).IsChain fun child parent => child ∈ parent.children
  | [], _, h => by simp [placedAll] at h
  | n :: r, chains, h => by
      obtain ⟨first, rest⟩ := List.forall_mem_cons.mp chains
      rw [placedAll, List.mem_append] at h
      rcases h with h | h
      · exact isChain_of_mem_placed n first h
      · exact isChain_of_mem_placedAll r rest h

end

end Node

end SuiteMetrics.Syntax
