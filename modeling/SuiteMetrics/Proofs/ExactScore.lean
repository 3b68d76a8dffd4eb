import Mathlib.Algebra.GroupWithZero.Nat
import SuiteMetrics.Proofs.Placed
import SuiteMetrics.Proofs.Traversal

/-!
What a score means.

The exact score of a tree is a sum of natural numbers over the nodes below the root: each rule that
applies to a node adds its fixed weight, or one more than the number of nesting nodes above the
node. A walk computes it with counts that stop at a limit. As long as no way down passes more
nesting nodes than the limit, the depth counter is exact and is back at its old value after every
subtree (`walkNode_exact`), and the score is one cut of the exact sum (`score_eq_exact`). Beyond
that bound the depth counter stops on the way down and is taken back too often on the way up.
-/

namespace SuiteMetrics.Scoring

open Syntax (Node NodeKind Placed)

/-- The weight of an effect under some number of nesting nodes, not cut. -/
def Effect.exactWeight (depth : Nat) : Effect → Nat
  | .flat w => w.val
  | .nested => 1 + depth

namespace Setting

variable (s : Setting)

/-- The number of nesting nodes above a placed node. -/
def depthOf (p : Placed) : Nat := p.above.countP s.nests

/-- The rules that apply to a node, read off the policy. -/
def applicable (n : Node) : List Rule :=
  s.policy.rules.filter fun rule =>
    rule.kind == n.kind && rule.matcher.accepts s.source s.enclosing n

/-- What a placed node adds to the exact score. -/
def exactAt (p : Placed) : Nat :=
  ((s.applicable p.node).map fun rule => rule.effect.exactWeight (s.depthOf p)).sum

/-- The exact score of everything below a root. -/
def exact (root : Node) : Nat := (root.placedBelow.map s.exactAt).sum

/-- No way down from the root passes more nesting nodes than a count can hold. -/
def Shallow (root : Node) : Prop :=
  ∀ p ∈ root.placedBelow, (p.node :: p.above).countP s.nests ≤ limit

instance (root : Node) : Decidable (s.Shallow root) :=
  inferInstanceAs (Decidable (∀ p ∈ root.placedBelow, (p.node :: p.above).countP s.nests ≤ limit))

/-! ### One node -/

theorem hits_eq_applicable (n : Node) : s.hits n = s.applicable n := by
  rw [hits, Policy.rulesFor, List.filter_filter, applicable]
  simp only [Bool.and_comm]

/-- Rules are weighed at one depth, and their weights are one cut of the exact sum. -/
theorem foldl_add_exact (rules : List Rule) {c : Context} {n : Nat}
    (hn : c.score.val = min limit n) :
    (rules.foldl (fun c rule => c.add rule.effect) c).depth = c.depth ∧
      (rules.foldl (fun c rule => c.add rule.effect) c).score.val =
        min limit (n + (rules.map fun rule => rule.effect.exactWeight c.depth.val).sum) := by
  induction rules generalizing c n with
  | nil => exact ⟨rfl, by simpa using hn⟩
  | cons rule rules ih =>
      have added : (c.add rule.effect).score.val =
          min limit (n + rule.effect.exactWeight c.depth.val) := by
        simp only [Context.add, Capped.val_add, hn]
        cases rule.effect with
        | flat w =>
            simp only [Effect.weight, Effect.exactWeight]
            omega
        | nested =>
            simp only [Effect.weight, Effect.exactWeight, Capped.val_add, Capped.val_ofNat]
            omega
      obtain ⟨depth, score⟩ := ih added
      refine ⟨depth, score.trans ?_⟩
      rw [List.map_cons, List.sum_cons, Nat.add_assoc]
      rfl

/-- A visit leaves the depth, and adds the exact weight of the node. -/
theorem visit_exact {p : Placed} {c : Context} {n : Nat} (depth : c.depth.val = s.depthOf p)
    (score : c.score.val = min limit n) :
    (s.visit p.node c).depth = c.depth ∧
      (s.visit p.node c).score.val = min limit (n + s.exactAt p) := by
  rw [visit, hits_eq_applicable, exactAt, ← depth]
  exact foldl_add_exact _ score

/-- The children of a placed node are walked at their own depth, with the node's weight added. -/
theorem descend_exact {p : Placed} {c : Context} {n : Nat} (depth : c.depth.val = s.depthOf p)
    (score : c.score.val = min limit n) (fits : (p.node :: p.above).countP s.nests ≤ limit) :
    (s.descend p.node c).depth.val = (p.node :: p.above).countP s.nests ∧
      (s.descend p.node c).score.val = min limit (n + s.exactAt p) := by
  obtain ⟨hdepth, hscore⟩ := s.visit_exact depth score
  rw [depthOf] at depth
  unfold descend
  split
  case isTrue nests =>
      rw [List.countP_cons_of_pos nests] at fits ⊢
      refine ⟨?_, hscore⟩
      simp only [Context.enter, hdepth, Capped.val_add, Capped.val_ofNat, depth]
      omega
  case isFalse flat =>
      rw [List.countP_cons_of_neg flat]
      exact ⟨by rw [hdepth, depth], hscore⟩

/-- Leaving a placed node's level restores the depth of the node. -/
theorem depth_ascend {p : Placed} {c : Context}
    (depth : c.depth.val = (p.node :: p.above).countP s.nests) :
    (s.ascend p.node c).depth.val = s.depthOf p ∧ (s.ascend p.node c).score = c.score := by
  unfold ascend
  split
  case isTrue nests =>
      rw [List.countP_cons_of_pos nests] at depth
      refine ⟨?_, rfl⟩
      rw [Context.leave, Capped.val_pred, depth]
      rfl
  case isFalse flat =>
      rw [List.countP_cons_of_neg flat] at depth
      exact ⟨depth, rfl⟩

/-! ### A subtree -/

mutual

/-- A walk of a subtree is back at its depth, and has added the exact weights of its nodes. -/
theorem walkNode_exact {above : List Node} {c : Context} {n : Nat}
    (depth : c.depth.val = above.countP s.nests) (score : c.score.val = min limit n) :
    ∀ node : Node,
      (∀ p ∈ node.placed above, (p.node :: p.above).countP s.nests ≤ limit) →
      (s.walkNode node c).depth.val = above.countP s.nests ∧
        (s.walkNode node c).score.val = min limit (n + ((node.placed above).map s.exactAt).sum)
  | ⟨kind, span, name, startRow, endRow, children⟩, fits => by
      rw [Node.placed, List.forall_mem_cons] at fits
      rw [walkNode_eq, Node.placed, List.map_cons, List.sum_cons, ← Nat.add_assoc]
      obtain ⟨hdepth, hscore⟩ := s.descend_exact depth score fits.1
      obtain ⟨bdepth, bscore⟩ := walkAll_exact hdepth hscore children fits.2
      obtain ⟨adepth, ascore⟩ := s.depth_ascend bdepth
      exact ⟨adepth, ascore ▸ bscore⟩

theorem walkAll_exact {above : List Node} {c : Context} {n : Nat}
    (depth : c.depth.val = above.countP s.nests) (score : c.score.val = min limit n) :
    ∀ ns : List Node,
      (∀ p ∈ Node.placedAll above ns, (p.node :: p.above).countP s.nests ≤ limit) →
      (s.walkAll ns c).depth.val = above.countP s.nests ∧
        (s.walkAll ns c).score.val =
          min limit (n + ((Node.placedAll above ns).map s.exactAt).sum)
  | [], _ => ⟨depth, by simpa [walkAll, Node.placedAll] using score⟩
  | node :: r, fits => by
      rw [Node.placedAll, List.forall_mem_append] at fits
      rw [walkAll, Node.placedAll, List.map_append, List.sum_append, ← Nat.add_assoc]
      obtain ⟨hdepth, hscore⟩ := walkNode_exact depth score node fits.1
      exact walkAll_exact hdepth hscore r fits.2

end

end Setting

/-- The score of a tree that is shallow enough for the depth counter is the exact score, cut once,
whichever way the tree is walked. -/
theorem score_eq_exact (traversal : Traversal) (s : Setting) (root : Node)
    (shallow : s.Shallow root) :
    (score traversal s root).val = min limit (s.exact root) := by
  have depth : Context.start.depth.val = ([] : List Node).countP s.nests := rfl
  have empty : Context.start.score.val = min limit 0 := rfl
  obtain ⟨-, total⟩ := s.walkAll_exact depth empty root.children shallow
  rw [score, s.walk_eq_walkAll, Setting.exact]
  rwa [Nat.zero_add] at total

/-- An `if` around two loops in a loop, with a third loop after them. -/
def nestedLoops : Node :=
  let node (kind : NodeKind) (children : List Node) : Node := ⟨kind, ⟨0, 0⟩, none, 0, 0, children⟩
  node .ifThen
    [node .forLoop [node .other [node .whileLoop [node .doLoop []], node .ternary []]],
      node .forLoop []]

/-- The root is not judged and does not nest, and after the inner loops the last one stands at depth
zero again. -/
theorem score_eq_exact_nestedLoops :
    let s : Setting := ⟨.structural, "", none⟩
    s.Shallow nestedLoops ∧ s.exact nestedLoops = 1 + 2 + 3 + 1 ∧
      (score .iterative s nestedLoops).val = min limit (s.exact nestedLoops) :=
  ⟨by decide, by decide, score_eq_exact .iterative _ nestedLoops (by decide)⟩

end SuiteMetrics.Scoring
