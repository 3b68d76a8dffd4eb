import SuiteMetrics.Proofs.Declarations
import SuiteMetrics.Proofs.Traversal

/-!
Nodes that do not matter to a policy.

A construct is transparent to a policy when it declares no method, no rule speaks of it and it does
not nest. A node of such a construct can be taken out of a tree, so that its children stand in its
place. `Node.Spliced` relates some trees to what remains of them when any nodes of some constructs
are taken out, and `Node.splice` takes out all of them below a root. A walk passes through a
transparent node without changing its context, so it ends in the same context when the node is gone
(`walkAll_of_spliced`), and the declarations that remain are the same, each over what remains of its
own subtree (`methods_of_spliced`). No score changes (`splicing_changes_no_score`), whether counts
stop at a limit or not.
-/

namespace SuiteMetrics

open Syntax (Node NodeKind Tree)

/-! ### Taking nodes out -/

namespace Syntax

namespace Node

variable {gone : NodeKind → Bool}

/-- What remains of some trees when any of their nodes of some constructs are taken out, each
replaced by what remains of its children. -/
inductive Spliced (gone : NodeKind → Bool) : List Node → List Node → Prop where
  | nil : Spliced gone [] []
  | keep {n : Node} {r children r' : List Node} : Spliced gone n.children children →
      Spliced gone r r' → Spliced gone (n :: r) ({ n with children := children } :: r')
  | takeOut {n : Node} {r children r' : List Node} : gone n.kind →
      Spliced gone n.children children → Spliced gone r r' → Spliced gone (n :: r) (children ++ r')

mutual

/-- A node without the nodes of some constructs below it. -/
def splice (gone : NodeKind → Bool) : Node → Node
  | ⟨kind, span, name, startRow, endRow, children⟩ =>
    ⟨kind, span, name, startRow, endRow, spliceAll gone children⟩

/-- Some trees without the nodes of some constructs. -/
def spliceAll (gone : NodeKind → Bool) : List Node → List Node
  | [] => []
  | n :: r =>
    let rest := n.splice gone
    (if gone n.kind then rest.children else [rest]) ++ spliceAll gone r

end

theorem splice_eq (n : Node) :
    n.splice gone = { n with children := spliceAll gone n.children } := by
  cases n
  rfl

mutual

/-- Taking out all nodes of some constructs is one way to take out any of them. -/
theorem spliced_spliceAll : ∀ ns : List Node, Spliced gone ns (spliceAll gone ns)
  | [] => .nil
  | n :: r => by
      rw [spliceAll, splice_eq]
      split
      case isTrue out => exact .takeOut out (spliced_children n) (spliced_spliceAll r)
      case isFalse => exact .keep (spliced_children n) (spliced_spliceAll r)

theorem spliced_children : ∀ n : Node, Spliced gone n.children (spliceAll gone n.children)
  | ⟨_, _, _, _, _, children⟩ => spliced_spliceAll children

end

/-- A node by itself. -/
def bare (n : Node) : Node := { n with children := [] }

mutual

/-- All nodes of the constructs are taken out, and the others stand in the order in which they
stood. -/
theorem map_bare_preorderAll_spliceAll : ∀ ns : List Node,
    (preorderAll (spliceAll gone ns)).map bare =
      ((preorderAll ns).filter fun n => !gone n.kind).map bare
  | [] => rfl
  | n :: r => by
      have below := map_bare_children n
      rw [spliceAll, splice_eq, preorderAll_append, List.map_append,
        map_bare_preorderAll_spliceAll r, preorderAll, List.filter_append, List.map_append,
        preorder_eq, List.filter_cons]
      congr 1
      cases out : gone n.kind with
      | true => exact below
      | false =>
          simp only [Bool.false_eq_true, if_false, Bool.not_false, if_true, preorderAll,
            preorder_eq, List.append_nil, List.map_cons, below]
          rfl

theorem map_bare_children : ∀ n : Node,
    (preorderAll (spliceAll gone n.children)).map bare =
      ((preorderAll n.children).filter fun n => !gone n.kind).map bare
  | ⟨_, _, _, _, _, children⟩ => map_bare_preorderAll_spliceAll children

end

end Node

/-- A tree without the nodes of some constructs below its root. -/
def Tree.splice (gone : NodeKind → Bool) (t : Tree) : Tree :=
  { t with root := t.root.splice gone }

end Syntax

namespace Scoring

/-- A construct means nothing to a policy: it declares no method, no rule speaks of it and it does
not nest. -/
def Policy.IsTransparent (p : Policy) (kind : NodeKind) : Prop :=
  kind.isMethod = false ∧ (∀ rule ∈ p.rules, rule.kind ≠ kind) ∧ kind ∉ p.nesting

instance (p : Policy) (kind : NodeKind) : Decidable (p.IsTransparent kind) :=
  inferInstanceAs (Decidable (_ ∧ _))

namespace Setting

variable {s : Setting} {gone : NodeKind → Bool}

/-! ### A walk past nodes that are taken out -/

theorem walkAll_append (ns more : List Node) (c : Context) :
    s.walkAll (ns ++ more) c = s.walkAll more (s.walkAll ns c) := by
  induction ns generalizing c with
  | nil => rfl
  | cons n r ih => exact ih _

/-- A rule sees nothing of what stands below a node. -/
theorem hits_withChildren (n : Node) (children : List Node) :
    s.hits { n with children := children } = s.hits n := by
  refine List.filter_congr fun rule _ => ?_
  cases rule.matcher with
  | always => rfl
  | containsAny tokens => rfl
  | nameIn names => rfl
  | nameStartsWith beginnings => rfl
  | recursion => rfl

/-- A node is evaluated and left alike whatever stands below it. -/
theorem walkNode_withChildren (n : Node) (children : List Node) (c : Context) :
    s.walkNode { n with children := children } c =
      s.ascend n (s.walkAll children (s.descend n c)) := by
  have same : s.descend { n with children := children } c = s.descend n c := by
    rw [descend, descend, visit, visit, hits_withChildren]
    rfl
  rw [walkNode_eq, same]
  rfl

/-- A walk passes through a transparent node to its children. -/
theorem walkNode_of_isTransparent {n : Node} (transparent : s.policy.IsTransparent n.kind)
    (c : Context) : s.walkNode n c = s.walkAll n.children c := by
  obtain ⟨-, noRule, noNesting⟩ := transparent
  have flat : s.nests n = false := by
    rw [nests, Policy.nests, List.contains_eq_mem]
    exact decide_eq_false noNesting
  have unhit : s.hits n = [] := by
    have none : s.policy.rulesFor n.kind = [] := by
      refine List.filter_eq_nil_iff.mpr ?_
      intro rule mem same
      exact noRule rule mem (beq_iff_eq.mp same)
    rw [hits, none, List.filter_nil]
  rw [walkNode_eq, ascend, descend, flat, visit, unhit]
  rfl

/-- A walk ends in the same context when transparent nodes are taken out. -/
theorem walkAll_of_spliced (transparent : ∀ kind, gone kind → s.policy.IsTransparent kind)
    {ns ns' : List Node} (h : Node.Spliced gone ns ns') (c : Context) :
    s.walkAll ns' c = s.walkAll ns c := by
  induction h generalizing c with
  | nil => rfl
  | @keep n r children r' _ _ below rest =>
      rw [walkAll, walkAll, rest, walkNode_withChildren, below, ← walkNode_eq]
  | @takeOut n r children r' out _ _ below rest =>
      rw [walkAll_append, walkAll, rest, below, walkNode_of_isTransparent (transparent _ out)]

end Setting

/-- The score of a root is the same when transparent nodes below it are taken out. -/
theorem score_of_spliced {s : Setting} {gone : NodeKind → Bool}
    (transparent : ∀ kind, gone kind → s.policy.IsTransparent kind) (traversal : Traversal)
    {root : Node} {children : List Node} (h : Node.Spliced gone root.children children) :
    score traversal s { root with children := children } = score traversal s root := by
  rw [score, score, s.walk_eq_walkAll, s.walk_eq_walkAll]
  exact congrArg Context.score (Setting.walkAll_of_spliced transparent h .start)

/-! ### Declarations that remain -/

/-- When nodes that declare no method are taken out, all declarations remain in their order. What is
said of a declaration without regard to such nodes below it is said of the same ones. -/
theorem map_declarationsIn_of_spliced {gone : NodeKind → Bool}
    (noMethod : ∀ kind, gone kind → kind.isMethod = false) {β : Type} {f : Node → β}
    (same : ∀ (n : Node) (children : List Node), Node.Spliced gone n.children children →
      f { n with children := children } = f n) {ns ns' : List Node}
    (h : Node.Spliced gone ns ns') : (declarationsIn ns').map f = (declarationsIn ns).map f := by
  unfold declarationsIn
  induction h with
  | nil => rfl
  | @keep n r children r' spliced _ below rest =>
      simp only [Node.preorderAll, Node.preorder_eq, List.filter_append, List.map_append, rest,
        List.filter_cons]
      congr 1
      split
      · rw [List.map_cons, List.map_cons, below, same n children spliced]
      · exact below
  | @takeOut n r children r' out _ _ below rest =>
      have other : ¬n.kind.isMethod := Bool.eq_false_iff.mp (noMethod _ out)
      rw [Node.preorderAll_append, Node.preorderAll, Node.preorder_eq, List.filter_append,
        List.filter_append, List.map_append, List.map_append, rest, below,
        List.filter_cons, if_neg other]

theorem methodScores_splice {p : Policy} {gone : NodeKind → Bool}
    (transparent : ∀ kind, gone kind → p.IsTransparent kind) (traversal : Traversal) (t : Tree) :
    methodScores traversal p (t.splice gone) = methodScores traversal p t := by
  have whole : Node.Spliced gone [t.root] [t.root.splice gone] := by
    rw [Node.splice_eq]
    exact .keep (Node.spliced_children t.root) .nil
  rw [methodScores_eq_map, methodScores_eq_map, methods_eq, methods_eq]
  refine map_declarationsIn_of_spliced (fun kind out => (transparent kind out).1) ?_ whole
  intro n children spliced
  have score := score_of_spliced (s := ⟨p, t.source, some (methodName t.source n)⟩) transparent
    traversal spliced
  exact congrArg (MethodScore.mk _ _ _) score

/-- Taking out nodes that mean nothing to a policy changes no score, in whatever way a tree is
walked. All nodes of some constructs below a root are replaced by their children, and the other
nodes stay in their order. When the constructs are transparent, the score of the root is the same,
with any source and enclosing name, and so is the list of the scores of the methods. The nodes
without a construct of their own and those of syntax errors are such nodes for all built-in
policies. -/
theorem splicing_changes_no_score (traversal : Traversal) :
    (∀ (gone : NodeKind → Bool) (root : Node),
      (root.splice gone).bare = root.bare ∧
        (Node.preorderAll (root.splice gone).children).map Node.bare =
          ((Node.preorderAll root.children).filter fun n => !gone n.kind).map Node.bare) ∧
    (∀ (p : Policy) (gone : NodeKind → Bool), (∀ kind, gone kind → p.IsTransparent kind) →
      (∀ (source : String) (enclosing : Option String) (root : Node),
        score traversal ⟨p, source, enclosing⟩ (root.splice gone) =
          score traversal ⟨p, source, enclosing⟩ root) ∧
      ∀ t : Tree, methodScores traversal p (t.splice gone) = methodScores traversal p t) ∧
    ∀ k : PolicyKind,
      let gone (kind : NodeKind) : Bool := kind = .other ∨ kind = .error
      (∀ (source : String) (enclosing : Option String) (root : Node),
        score traversal ⟨k.policy, source, enclosing⟩ (root.splice gone) =
          score traversal ⟨k.policy, source, enclosing⟩ root) ∧
      ∀ t : Tree,
        methodScores traversal k.policy (t.splice gone) = methodScores traversal k.policy t := by
  have all : ∀ (p : Policy) (gone : NodeKind → Bool),
      (∀ kind, gone kind → p.IsTransparent kind) →
      (∀ (source : String) (enclosing : Option String) (root : Node),
        score traversal ⟨p, source, enclosing⟩ (root.splice gone) =
          score traversal ⟨p, source, enclosing⟩ root) ∧
      ∀ t : Tree, methodScores traversal p (t.splice gone) = methodScores traversal p t := by
    intro p gone transparent
    refine ⟨fun source enclosing root => ?_, methodScores_splice transparent traversal⟩
    rw [Node.splice_eq]
    exact score_of_spliced transparent traversal (Node.spliced_children root)
  refine ⟨fun gone root => ?_, all, fun k => all k.policy _ ?_⟩
  · rw [Node.splice_eq]
    exact ⟨rfl, Node.map_bare_children root⟩
  · intro kind out
    rcases of_decide_eq_true out with rfl | rfl
    · cases k <;> decide
    · cases k <;> decide

/-- A switch in a switch around an `if`, with an error node between them. -/
def nestedSwitches : Node :=
  let node (kind : NodeKind) (children : List Node) : Node := ⟨kind, ⟨0, 0⟩, none, 0, 0, children⟩
  node .switch [node .switch [node .error [node .switch [node .ifThen [node .caseLabel []]]]]]

/-- Switches and errors are nothing to the rules that count decisions. The outermost switch is the
root and stays, with the `if` as its only child. -/
theorem splicing_changes_no_score_nestedSwitches :
    let gone (kind : NodeKind) : Bool := kind = .switch ∨ kind = .error
    (∀ kind, gone kind → Policy.cyclomatic.IsTransparent kind) ∧
      (nestedSwitches.splice gone).preorder.map Node.kind = [.switch, .ifThen, .caseLabel] ∧
      (score .iterative ⟨.cyclomatic, "", none⟩ (nestedSwitches.splice gone)).val = 2 := by
  intro gone
  have transparent : ∀ kind, gone kind → Policy.cyclomatic.IsTransparent kind := by
    intro kind out
    rcases of_decide_eq_true out with rfl | rfl
    · decide
    · decide
  refine ⟨transparent, by decide, ?_⟩
  rw [((splicing_changes_no_score .iterative).2.1 _ gone transparent).1,
    score_eq_of_traversals _ .recursive]
  decide

end Scoring

end SuiteMetrics
