import SuiteMetrics.Scoring.Walk

/-!
The two walks of a tree agree.

`Setting.settle` says what a stack of frames still owes a context: every pending node is walked by
recursion, and every end of a level takes the depth one back. A step of the walk from a stack pays
part of the debt and leaves the rest, so what the stack owes is the same after the step
(`settle_step?`), and a whole run pays all of it (`run_eq_settle`). Nothing is asked of the
tree, the policy or the counts: both walks visit, enter and leave in the same order, so they also
agree where a score or a depth stops at the limit.
-/

namespace SuiteMetrics.Scoring

open Syntax (Node Tree)

namespace Setting

variable (s : Setting)

/-! ### What the recursive walk does at a node -/

/-- The context in which the children of a node are walked. -/
def descend (n : Node) (c : Context) : Context :=
  if s.nests n then (s.visit n c).enter else s.visit n c

/-- The context after the children of a node have been walked, taken back from the node's level. -/
def ascend (n : Node) (c : Context) : Context := if s.nests n then c.leave else c

/-- A node is evaluated, its children are walked below it, and its level is left. -/
theorem walkNode_eq (n : Node) (c : Context) :
    s.walkNode n c = s.ascend n (s.walkAll n.children (s.descend n c)) := by
  obtain ⟨kind, span, name, startRow, endRow, children⟩ := n
  simp only [walkNode, ascend, descend]
  split
  · rfl
  · rfl

/-! ### What a stack owes -/

/-- The context after all that is pending has been dealt with, each node by recursion. -/
def settle : List Frame → Context → Context
  | [], c => c
  | .enter n :: pending, c => settle pending (s.walkNode n c)
  | .leave :: pending, c => settle pending c.leave

theorem settle_append (fs gs : List Frame) (c : Context) :
    s.settle (fs ++ gs) c = s.settle gs (s.settle fs c) := by
  induction fs generalizing c with
  | nil => rfl
  | cons f r ih =>
      cases f with
      | enter n => exact ih _
      | leave => exact ih _

/-- Pending nodes owe the walk of all of them. -/
theorem settle_map_enter (ns : List Node) (c : Context) :
    s.settle (ns.map Frame.enter) c = s.walkAll ns c := by
  induction ns generalizing c with
  | nil => rfl
  | cons n r ih => exact ih _

/-- The frames below a node owe exactly what the recursive walk does after it has evaluated the
node. -/
theorem settle_framesBelow (n : Node) (c : Context) :
    s.settle (s.framesBelow n) (s.descend n c) = s.walkNode n c := by
  rw [walkNode_eq, framesBelow, settle_append, settle_map_enter, ascend]
  split
  · rfl
  · rfl

/-- A step leaves what is owed as it was. -/
theorem settle_step? {w v : Walk} (h : s.step? w = some v) :
    s.settle v.pending v.context = s.settle w.pending w.context := by
  obtain ⟨pending, c⟩ := w
  match pending with
  | [] => simp [step?] at h
  | .leave :: pending =>
      simp only [step?, Option.some.injEq] at h
      subst h
      rfl
  | .enter n :: pending =>
      simp only [step?, Option.some.injEq] at h
      subst h
      change s.settle (s.framesBelow n ++ pending) (s.descend n c) =
        s.settle pending (s.walkNode n c)
      rw [settle_append, settle_framesBelow]

/-- A walk that can make no step owes nothing more. -/
theorem settle_of_step?_eq_none {w : Walk} (h : s.step? w = none) :
    s.settle w.pending w.context = w.context := by
  obtain ⟨pending, c⟩ := w
  match pending with
  | [] => rfl
  | .leave :: _ => simp [step?] at h
  | .enter _ :: _ => simp [step?] at h

/-- A run from a stack ends in the context that the stack owes. -/
theorem run_eq_settle (w : Walk) : s.run w = s.settle w.pending w.context := by
  -- The induction follows the steps of the run; each keeps what is owed.
  fun_induction run s w with
  | case1 w h => exact (s.settle_of_step?_eq_none h).symm
  | case2 w v h ih => rw [ih, s.settle_step? h]

/-- Both walks of a tree end in the same context. -/
theorem walk_eq_walkAll (traversal : Traversal) (root : Node) :
    s.walk traversal root = s.walkAll root.children .start := by
  cases traversal with
  | recursive => rfl
  | iterative =>
      simp only [walk]
      rw [run_eq_settle, settle_map_enter]

end Setting

/-- The score does not depend on the way to walk. -/
theorem score_eq_of_traversals (t u : Traversal) (s : Setting) (root : Node) :
    score t s root = score u s root := by
  rw [score, score, s.walk_eq_walkAll t, s.walk_eq_walkAll u]

/-- The recursive walk and the walk from a stack leave the same score and the same depth, for every
tree, source, policy and enclosing name; so the score of a file and the list of its methods' scores
are the same under both. -/
theorem traversals_agree (policy : Policy) :
    (∀ (source : String) (enclosing : Option String) (root : Node),
      let s : Setting := ⟨policy, source, enclosing⟩
      s.walk .recursive root = s.walk .iterative root ∧
        score .recursive s root = score .iterative s root) ∧
      ∀ t : Tree, scoreTree .recursive policy t = scoreTree .iterative policy t ∧
        methodScores .recursive policy t = methodScores .iterative policy t := by
  refine ⟨fun source enclosing root => ⟨?_, score_eq_of_traversals ..⟩,
    fun t => ⟨score_eq_of_traversals .., ?_⟩⟩
  · rw [Setting.walk_eq_walkAll, Setting.walk_eq_walkAll]
  · refine List.map_congr_left fun n _ => ?_
    simp only [score_eq_of_traversals .recursive .iterative]

end SuiteMetrics.Scoring
