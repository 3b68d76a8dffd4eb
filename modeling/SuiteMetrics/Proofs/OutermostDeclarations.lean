import Mathlib.Algebra.Order.BigOperators.Group.List
import Mathlib.Algebra.Order.Group.Nat
import SuiteMetrics.Proofs.Declarations
import SuiteMetrics.Proofs.ExactScore

/-!
The cyclomatic score of a file and those of its methods.

Declarations nest: a method can hold a class with methods of its own. A declaration is outermost
when no other encloses it, and a node is outside when it is in no declaration. Every node is outside
or in exactly one outermost declaration (`sum_preorder_eq`), so the decisions of a file are those of
its outermost declarations and those outside. No rule that counts decisions asks for the nesting or
for the name of the method: each score is the number of decisions below its root, cut at the limit
(`score_cyclomatic`), and scores reconcile (`cyclomatic_scores_reconcile`). The root itself is
judged in no score.
-/

namespace SuiteMetrics

open Syntax (Node NodeKind Placed Tree)

/-! ### Where declarations stand -/

namespace Syntax.Placed

/-- A node stands in a declaration. -/
def isEnclosed (p : Placed) : Bool := p.above.any fun n => n.kind.isMethod

/-- A declaration that stands in no other. -/
def isOutermost (p : Placed) : Bool := p.node.kind.isMethod && !p.isEnclosed

/-- A node that is no declaration and stands in none. -/
def isOutside (p : Placed) : Bool := !p.node.kind.isMethod && !p.isEnclosed

end Syntax.Placed

namespace Scoring

/-! ### Sums over a tree -/

section Sums

variable (w : Node → Nat)

/-- The sum of what the nodes below a node weigh. -/
def sumBelow (n : Node) : Nat := ((Node.preorderAll n.children).map w).sum

theorem isEnclosed_of_mem_placedAll {above ns : List Node} {p : Placed}
    (enclosed : above.any fun n => n.kind.isMethod) (mem : p ∈ Node.placedAll above ns) :
    p.isEnclosed = true := by
  obtain ⟨n, within, method⟩ := List.any_eq_true.mp enclosed
  exact List.any_eq_true.mpr ⟨n, (Node.suffix_of_mem_placedAll ns mem).mem within, method⟩

/-- In a declaration there is no outermost one, and nothing is outside. -/
theorem filter_placedAll_of_enclosed {above : List Node}
    (enclosed : above.any fun n => n.kind.isMethod) (ns : List Node) :
    (Node.placedAll above ns).filter Placed.isOutermost = [] ∧
      (Node.placedAll above ns).filter Placed.isOutside = [] := by
  constructor
  · refine List.filter_eq_nil_iff.mpr fun p mem => ?_
    simp [Placed.isOutermost, isEnclosed_of_mem_placedAll enclosed mem]
  · refine List.filter_eq_nil_iff.mpr fun p mem => ?_
    simp [Placed.isOutside, isEnclosed_of_mem_placedAll enclosed mem]

variable {w}

mutual

/-- Where no declaration stands above, the weight of a tree is that of what is below its outermost
declarations and of what is outside. -/
theorem sum_preorder_eq (plain : ∀ n : Node, n.kind.isMethod → w n = 0) {above : List Node}
    (free : ¬above.any fun n => n.kind.isMethod) :
    ∀ n : Node, (n.preorder.map w).sum =
      (((n.placed above).filter Placed.isOutermost).map fun p => sumBelow w p.node).sum +
        (((n.placed above).filter Placed.isOutside).map fun p => w p.node).sum
  | ⟨kind, span, name, startRow, endRow, children⟩ => by
      let n : Node := ⟨kind, span, name, startRow, endRow, children⟩
      have alone : Placed.isEnclosed ⟨above, n⟩ = false := Bool.eq_false_iff.mpr free
      rw [Node.preorder_eq, Node.placed_eq, List.map_cons, List.sum_cons, List.filter_cons,
        List.filter_cons]
      cases method : kind.isMethod with
      | true =>
          -- Nothing below the declaration is listed apart from it.
          have enclosed : (n :: above).any fun n => n.kind.isMethod := by
            rw [List.any_cons, method, Bool.true_or]
          obtain ⟨none, none'⟩ := filter_placedAll_of_enclosed enclosed children
          rw [none, none', plain n method, if_pos (by rw [Placed.isOutermost, method, alone]; rfl),
            if_neg (by rw [Placed.isOutside, method]; exact Bool.false_ne_true)]
          simp only [List.map_cons, List.map_nil, List.sum_cons, List.sum_nil]
          exact Nat.add_comm _ _
      | false =>
          have free' : ¬(n :: above).any fun n => n.kind.isMethod := by
            rwa [List.any_cons, method, Bool.false_or]
          rw [if_neg (by rw [Placed.isOutermost, method]; exact Bool.false_ne_true),
            if_pos (by rw [Placed.isOutside, method, alone]; rfl),
            sum_preorderAll_eq plain free' children, List.map_cons, List.sum_cons]
          exact Nat.add_left_comm _ _ _

theorem sum_preorderAll_eq (plain : ∀ n : Node, n.kind.isMethod → w n = 0) {above : List Node}
    (free : ¬above.any fun n => n.kind.isMethod) :
    ∀ ns : List Node, ((Node.preorderAll ns).map w).sum =
      (((Node.placedAll above ns).filter Placed.isOutermost).map fun p => sumBelow w p.node).sum +
        (((Node.placedAll above ns).filter Placed.isOutside).map fun p => w p.node).sum
  | [] => rfl
  | n :: r => by
      simp only [Node.preorderAll, Node.placedAll, List.filter_append, List.map_append,
        List.sum_append, sum_preorder_eq plain free n, sum_preorderAll_eq plain free r]
      omega

end

end Sums

/-- Below a child there is no more than below its parent. -/
theorem sumBelow_le_of_mem (w : Node → Nat) {child parent : Node} (mem : child ∈ parent.children) :
    sumBelow w child ≤ sumBelow w parent := by
  obtain ⟨before, after, split⟩ := List.append_of_mem mem
  have below : Node.preorderAll parent.children =
      Node.preorderAll before ++ child :: Node.preorderAll child.children ++
        Node.preorderAll after := by
    rw [split, Node.preorderAll_append, Node.preorderAll, Node.preorder_eq, List.append_assoc]
  simp only [sumBelow, below, List.map_append, List.map_cons, List.sum_append, List.sum_cons]
  omega

/-! ### Decisions -/

/-- The number of rules that count a node as a decision. -/
def decisionsAt (source : String) (n : Node) : Nat :=
  Policy.cyclomatic.rules.countP fun rule =>
    rule.kind == n.kind && rule.matcher.accepts source none n

/-- The number of decisions below a root. -/
def decisionsBelow (source : String) : Node → Nat := sumBelow (decisionsAt source)

/-- A declaration is no decision. -/
theorem decisionsAt_of_isMethod (source : String) (n : Node) (method : n.kind.isMethod) :
    decisionsAt source n = 0 := by
  have unruled : ∀ rule ∈ Policy.cyclomatic.rules, rule.kind.isMethod = false := by decide
  refine List.countP_eq_zero.mpr fun rule mem matched => ?_
  obtain ⟨same, -⟩ := Bool.and_eq_true_iff.mp matched
  rw [← beq_iff_eq.mp same, unruled rule mem] at method
  exact Bool.false_ne_true method

/-- Each decision weighs one, at any depth and in any method. -/
theorem exactAt_cyclomatic (source : String) (enclosing : Option String) (p : Placed) :
    Setting.exactAt ⟨.cyclomatic, source, enclosing⟩ p = decisionsAt source p.node := by
  have known : ∀ rule ∈ Policy.cyclomatic.rules,
      rule.effect = .flat (.ofNat 1) ∧ rule.matcher ≠ .recursion := by decide
  have sameTest : ∀ rule ∈ Policy.cyclomatic.rules,
      rule.matcher.accepts source enclosing p.node = rule.matcher.accepts source none p.node := by
    intro rule mem
    have other := (known rule mem).2
    cases h : rule.matcher with
    | recursion => exact absurd h other
    | always => rfl
    | containsAny tokens => rfl
    | nameIn names => rfl
    | nameStartsWith beginnings => rfl
  have applicable : Setting.applicable ⟨.cyclomatic, source, enclosing⟩ p.node =
      Policy.cyclomatic.rules.filter fun rule =>
        rule.kind == p.node.kind && rule.matcher.accepts source none p.node :=
    List.filter_congr fun rule mem => by rw [sameTest rule mem]
  rw [Setting.exactAt, applicable, decisionsAt, List.countP_eq_length_filter]
  refine (congrArg List.sum (List.map_congr_left (g := fun _ => 1) ?_)).trans ?_
  · intro rule mem
    rw [(known rule (List.mem_of_mem_filter mem)).1]
    rfl
  · rw [List.map_const', List.sum_replicate_nat, Nat.mul_one]

/-- A score counts the decisions below its root, up to the limit. -/
theorem score_cyclomatic (traversal : Traversal) (source : String) (enclosing : Option String)
    (root : Node) :
    (score traversal ⟨.cyclomatic, source, enclosing⟩ root).val =
      min limit (decisionsBelow source root) := by
  have flat : ∀ ns : List Node,
      ns.countP (Setting.nests ⟨.cyclomatic, source, enclosing⟩) = 0 := by
    intro ns
    exact List.countP_eq_zero.mpr fun n _ => Bool.false_ne_true
  rw [score_eq_exact _ _ _ fun p _ => flat (p.node :: p.above) ▸ Nat.zero_le limit, Setting.exact,
    List.map_congr_left fun p _ => exactAt_cyclomatic source enclosing p, decisionsBelow, sumBelow,
    Node.placedBelow, ← Node.map_node_placedAll [], List.map_map]
  rfl

/-! ### Scores of declarations -/

/-- The nodes of a tree where they stand, the root first and in the way to all others. -/
def places (t : Tree) : List Placed := t.root.placed []

/-- The entries of the list of scores with the declarations to which they belong. -/
def scoredDeclarations (traversal : Traversal) (policy : Policy) (t : Tree) :
    List (Placed × MethodScore) :=
  ((places t).filter fun p => p.node.kind.isMethod).zip (methodScores traversal policy t)

theorem methods_eq_places (t : Tree) :
    methods t = ((places t).filter fun p => p.node.kind.isMethod).map Placed.node := by
  rw [methods, Node.descendants_eq_preorder, places, ← Node.map_node_placed [], List.filter_map]
  rfl

/-- Each declaration comes with what is listed for it. -/
theorem scoredDeclarations_eq (traversal : Traversal) (policy : Policy) (t : Tree) :
    scoredDeclarations traversal policy t =
      ((places t).filter fun p => p.node.kind.isMethod).map fun p =>
        (p, methodScore traversal policy t p.node) := by
  rw [scoredDeclarations, methodScores_eq_map, methods_eq_places, List.map_map,
    ← List.map_prod_left_eq_zip]
  rfl

/-- The score listed for a declaration counts the decisions below it. -/
theorem val_methodScore (traversal : Traversal) (t : Tree) (n : Node) :
    (methodScore traversal .cyclomatic t n).score.val = min limit (decisionsBelow t.source n) :=
  score_cyclomatic traversal t.source _ n

/-- The weights outside declarations are those at the root and at the places below it. -/
theorem sum_outside_eq (w : Node → Nat) (plain : ∀ n : Node, n.kind.isMethod → w n = 0) (t : Tree) :
    (((places t).filter Placed.isOutside).map fun p => w p.node).sum =
      w t.root +
        (((places t).filter fun p => !p.above.isEmpty && p.isOutside).map fun p =>
          w p.node).sum := by
  have below : (Node.placedAll [t.root] t.root.children).filter Placed.isOutside =
      (Node.placedAll [t.root] t.root.children).filter fun p =>
        !p.above.isEmpty && p.isOutside := by
    refine List.filter_congr fun p mem => ?_
    have some : p.above ≠ [] := List.ne_nil_of_mem ((Node.suffix_of_mem_placedAll _ mem).mem
      List.mem_cons_self)
    rw [List.isEmpty_eq_false_iff.mpr some, Bool.not_false, Bool.true_and]
  rw [places, Node.placed_eq, List.filter_cons, List.filter_cons, below]
  cases method : t.root.kind.isMethod with
  | true =>
      rw [plain t.root method, Nat.zero_add]
      simp [Placed.isOutside, method]
  | false => simp [Placed.isOutside, Placed.isEnclosed, method]

/-- The decisions below a root are those below its outermost declarations and those at the nodes
below it that are outside. -/
theorem decisionsBelow_root (t : Tree) :
    decisionsBelow t.source t.root =
      (((places t).filter Placed.isOutermost).map fun p =>
          decisionsBelow t.source p.node).sum +
        (((places t).filter fun p => !p.above.isEmpty && p.isOutside).map fun p =>
          decisionsAt t.source p.node).sum := by
  have plain := decisionsAt_of_isMethod t.source
  have free : ¬([] : List Node).any fun n => n.kind.isMethod := Bool.false_ne_true
  have whole := sum_preorder_eq plain free t.root
  have outside := sum_outside_eq (decisionsAt t.source) plain t
  rw [← places, outside, Node.preorder_eq, List.map_cons, List.sum_cons] at whole
  rw [decisionsBelow, sumBelow]
  omega

/-- Below a node there are no more decisions than below any node above it. -/
theorem decisionsBelow_le_of_mem_above (source : String) {root n : Node} {p : Placed}
    (mem : p ∈ root.placed []) (above : n ∈ p.above) :
    decisionsBelow source p.node ≤ decisionsBelow source n := by
  have chain := Node.isChain_of_mem_placed root (List.isChain_singleton root) mem
  have ascending : (p.node :: p.above).IsChain fun child parent =>
      decisionsBelow source child ≤ decisionsBelow source parent :=
    chain.imp fun _ _ child => sumBelow_le_of_mem _ child
  have trans : Trans (fun a b : Node => decisionsBelow source a ≤ decisionsBelow source b)
      (fun a b => decisionsBelow source a ≤ decisionsBelow source b)
      (fun a b => decisionsBelow source a ≤ decisionsBelow source b) := ⟨Nat.le_trans⟩
  exact (List.pairwise_cons.mp ascending.pairwise).1 n above

/-- The cyclomatic scores of a tree reconcile. The entries of the list of scores are those of its
declarations. If the decisions below the root are fewer than a count can hold, the score of the tree
is the sum of the entries of the outermost declarations and of the decisions at the nodes other than
the root that stand in no declaration. And the entry of a declaration is at most that of each one
that encloses it, whatever counts can hold. -/
theorem cyclomatic_scores_reconcile (traversal : Traversal) (t : Tree) :
    let entries := scoredDeclarations traversal .cyclomatic t
    entries.map Prod.snd = methodScores traversal .cyclomatic t ∧
      (decisionsBelow t.source t.root < 2 ^ 32 →
        (scoreTree traversal .cyclomatic t).val =
          ((entries.filter fun e => !e.1.isEnclosed).map fun e => e.2.score.val).sum +
            (((places t).filter fun p => !p.above.isEmpty && p.isOutside).map fun p =>
              decisionsAt t.source p.node).sum) ∧
      ∀ inner ∈ entries, ∀ outer ∈ entries,
        outer.1.node :: outer.1.above <:+ inner.1.above →
          inner.2.score.val ≤ outer.2.score.val := by
  intro entries
  have each : entries = ((places t).filter fun p => p.node.kind.isMethod).map fun p =>
      (p, methodScore traversal .cyclomatic t p.node) := scoredDeclarations_eq traversal _ t
  refine ⟨?_, fun fits => ?_, ?_⟩
  · rw [each, methodScores_eq_map, methods_eq_places, List.map_map, List.map_map]
    rfl
  · have total := decisionsBelow_root t
    have small {k : Nat} (h : k ≤ decisionsBelow t.source t.root) : min limit k = k :=
      Nat.min_eq_right (Nat.le_of_lt_succ (Nat.lt_of_le_of_lt h fits))
    have outermost : (entries.filter fun e => !e.1.isEnclosed).map (fun e => e.2.score.val) =
        ((places t).filter Placed.isOutermost).map fun p => decisionsBelow t.source p.node := by
      have same : ∀ p : Placed, (!p.isEnclosed && p.node.kind.isMethod) = p.isOutermost :=
        fun p => Bool.and_comm _ _
      rw [each, List.filter_map, List.map_map, List.filter_filter]
      simp only [Function.comp_apply, same]
      refine List.map_congr_left fun p mem => ?_
      have part : decisionsBelow t.source p.node ≤ (((places t).filter Placed.isOutermost).map
          fun p => decisionsBelow t.source p.node).sum :=
        List.le_sum_of_mem (List.mem_map_of_mem mem)
      exact (val_methodScore traversal t p.node).trans (small (total ▸ Nat.le_add_right_of_le part))
    rw [outermost, scoreTree, score_cyclomatic, small (Nat.le_refl _), total]
  · rw [each]
    intro inner hinner outer houter encloses
    obtain ⟨p, hp, rfl⟩ := List.mem_map.mp hinner
    obtain ⟨q, -, rfl⟩ := List.mem_map.mp houter
    have fewer := decisionsBelow_le_of_mem_above t.source (List.mem_of_mem_filter hp)
      (encloses.mem List.mem_cons_self)
    rw [val_methodScore, val_methodScore]
    exact min_le_min_left limit fewer

/-- A class with a ternary outside its method, which holds an `if` and, in a class of its own, a
second method with a loop. -/
def localClass : Tree :=
  let node (kind : NodeKind) (children : List Node) : Node := ⟨kind, ⟨0, 0⟩, none, 0, 0, children⟩
  .ofRoot (node .other [node .ternary [],
    node .method [node .ifThen [], node .other [node .method [node .forLoop []]]]]) ""

/-- The inner method's loop is also one of the outer method's two decisions, and is counted once. -/
theorem cyclomatic_scores_reconcile_localClass :
    decisionsBelow localClass.source localClass.root < 2 ^ 32 ∧
      (methodScores .iterative .cyclomatic localClass).map (fun m => m.score.val) = [2, 1] ∧
      (scoreTree .iterative .cyclomatic localClass).val = 2 + 1 := by
  have fits : decisionsBelow localClass.source localClass.root < 2 ^ 32 := by decide
  obtain ⟨-, whole, -⟩ := cyclomatic_scores_reconcile .iterative localClass
  refine ⟨fits, ?_, ?_⟩
  · simp only [methodScores_eq_map, methods_eq, List.map_map, Function.comp_def, val_methodScore]
    decide
  · rw [whole fits, scoredDeclarations_eq, List.filter_map, List.map_map]
    simp only [Function.comp_def, val_methodScore]
    decide

/-- The root is a place outside all declarations, but it is judged in no score: the decision that it
is by itself appears in none. -/
theorem rootDecision_is_in_no_score :
    let t : Tree := .ofRoot ⟨.ifThen, ⟨0, 0⟩, none, 0, 0, []⟩ ""
    let entries := scoredDeclarations .iterative .cyclomatic t
    (t.root.preorder.map (decisionsAt t.source)).sum < 2 ^ 32 ∧
      (scoreTree .iterative .cyclomatic t).val ≠
        ((entries.filter fun e => !e.1.isEnclosed).map fun e => e.2.score.val).sum +
          (((places t).filter Placed.isOutside).map fun p => decisionsAt t.source p.node).sum := by
  intro t entries
  refine ⟨by decide, ?_⟩
  rw [scoreTree, score_cyclomatic, show entries = _ from scoredDeclarations_eq _ _ t,
    List.filter_map, List.map_map]
  simp only [Function.comp_def, val_methodScore]
  decide

end Scoring

end SuiteMetrics
