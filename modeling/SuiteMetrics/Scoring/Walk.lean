import SuiteMetrics.Scoring.Policy
import SuiteMetrics.Syntax.Tree

/-!
Scoring a tree.

A score is collected while the nodes below a root are visited in source order; the root itself is
not evaluated. The nesting depth goes up below a node that nests and comes back after it. There
are two walks: one by recursion, and one that keeps what is pending on a stack of frames, so that
the depth of a tree costs no call stack.
-/

namespace SuiteMetrics.Scoring

open Syntax (Node NodeKind Tree)

/-- How a tree is walked. -/
inductive Traversal where
  | recursive
  | iterative
  deriving DecidableEq, Repr, Inhabited

namespace Traversal

/-- The written name of a way to walk. -/
def name : Traversal → String
  | .recursive => "recursive"
  | .iterative => "iterative"

/-- The way to walk with a written name. -/
def ofName? : String → Option Traversal
  | "recursive" => some .recursive
  | "iterative" => some .iterative
  | _ => none

end Traversal

/-- What a walk needs to know to judge a node. -/
structure Setting where
  policy : Policy
  source : String
  /-- The name of the method that is scored. -/
  enclosing : Option String

/-- What a walk has collected: the score so far, and the nesting depth where it stands. -/
structure Context where
  score : Score
  depth : Score
  deriving DecidableEq, Repr

namespace Context

/-- Where every walk starts. -/
def start : Context := ⟨0, 0⟩

/-- One level deeper. -/
def enter (c : Context) : Context := { c with depth := c.depth + .ofNat 1 }

/-- One level back. -/
def leave (c : Context) : Context := { c with depth := c.depth.pred }

/-- The score with the weight of one effect at the present depth. -/
def add (c : Context) (effect : Effect) : Context :=
  { c with score := c.score + effect.weight c.depth }

end Context

namespace Setting

/-- The rules that apply to a node, in their order. -/
def hits (s : Setting) (n : Node) : List Rule :=
  (s.policy.rulesFor n.kind).filter fun rule => rule.matcher.accepts s.source s.enclosing n

/-- The context after a node has been evaluated. -/
def visit (s : Setting) (n : Node) (c : Context) : Context :=
  (s.hits n).foldl (fun c rule => c.add rule.effect) c

/-- Whether a node nests. -/
def nests (s : Setting) (n : Node) : Bool := s.policy.nests n.kind

/-! ### By recursion -/

mutual

/-- A node is evaluated, and then everything below it, one level deeper if it nests. -/
def walkNode (s : Setting) : Node → Context → Context
  | ⟨kind, span, name, startRow, endRow, children⟩, c =>
    let n : Node := ⟨kind, span, name, startRow, endRow, children⟩
    let visited := s.visit n c
    if s.nests n then (walkAll s children visited.enter).leave else walkAll s children visited

/-- Some nodes are walked one after the other. -/
def walkAll (s : Setting) : List Node → Context → Context
  | [], c => c
  | n :: r, c => walkAll s r (walkNode s n c)

end

/-! ### From a stack -/

/-- What is pending in a walk. -/
inductive Frame where
  /-- A node to walk. -/
  | enter (n : Node)
  /-- The end of a nesting level. -/
  | leave

/-- The work that a frame stands for. -/
def Frame.weight : Frame → Nat
  | .enter n => 2 * n.size
  | .leave => 1

/-- The work that a stack stands for. -/
def Frame.weightAll : List Frame → Nat
  | [] => 0
  | f :: r => f.weight + weightAll r

theorem Frame.weightAll_append (fs gs : List Frame) :
    Frame.weightAll (fs ++ gs) = Frame.weightAll fs + Frame.weightAll gs := by
  induction fs with
  | nil => simp [weightAll]
  | cons f r ih =>
      simp only [List.cons_append, weightAll, ih]
      omega

theorem Frame.weightAll_map_enter (ns : List Node) :
    Frame.weightAll (ns.map Frame.enter) = 2 * Node.sizeAll ns := by
  induction ns with
  | nil => rfl
  | cons n r ih =>
      simp only [List.map_cons, weightAll, ih, Frame.weight, Node.sizeAll]
      omega

/-- What is pending after a node has been evaluated: its children in order, and the end of its
level if it nests. -/
def framesBelow (s : Setting) (n : Node) : List Frame :=
  n.children.map Frame.enter ++ if s.nests n then [.leave] else []

theorem weightAll_framesBelow (s : Setting) (n : Node) :
    Frame.weightAll (s.framesBelow n) < (Frame.enter n).weight := by
  simp only [framesBelow, Frame.weightAll_append, Frame.weightAll_map_enter, Frame.weight,
    Node.size_eq]
  split
  · simp only [Frame.weightAll, Frame.weight]
    omega
  · simp only [Frame.weightAll]
    omega

/-- The state of a walk from a stack: the top frame comes first. -/
structure Walk where
  pending : List Frame
  context : Context

/-- One step of a walk: the top frame is taken off and dealt with. -/
def step? (s : Setting) : Walk → Option Walk
  | ⟨[], _⟩ => none
  | ⟨.leave :: pending, c⟩ => some ⟨pending, c.leave⟩
  | ⟨.enter n :: pending, c⟩ =>
    let visited := s.visit n c
    some ⟨s.framesBelow n ++ pending, if s.nests n then visited.enter else visited⟩

theorem weightAll_step? {s : Setting} {w v : Walk} (h : s.step? w = some v) :
    Frame.weightAll v.pending < Frame.weightAll w.pending := by
  obtain ⟨pending, c⟩ := w
  match pending with
  | [] => simp [step?] at h
  | .leave :: pending =>
      simp only [step?, Option.some.injEq] at h
      subst h
      simp [Frame.weightAll, Frame.weight]
  | .enter n :: pending =>
      simp only [step?, Option.some.injEq] at h
      subst h
      have := s.weightAll_framesBelow n
      simp only [Frame.weightAll_append, Frame.weightAll] at this ⊢
      omega

/-- The context at the end of a walk from a stack. -/
def run (s : Setting) (w : Walk) : Context :=
  match _h : s.step? w with
  | none => w.context
  | some v => run s v
termination_by Frame.weightAll w.pending
decreasing_by exact weightAll_step? (by assumption)

/-- The context after everything below a root has been walked. -/
def walk (s : Setting) (traversal : Traversal) (root : Node) : Context :=
  match traversal with
  | .recursive => s.walkAll root.children .start
  | .iterative => s.run ⟨root.children.map Frame.enter, .start⟩

end Setting

/-- The score of everything below a root. -/
def score (traversal : Traversal) (s : Setting) (root : Node) : Score :=
  (s.walk traversal root).score

/-- The score of a whole file, inside no method. -/
def scoreTree (traversal : Traversal) (policy : Policy) (t : Tree) : Score :=
  score traversal ⟨policy, t.source, none⟩ t.root

/-! ### Methods -/

/-- The score of a method or constructor. -/
structure MethodScore where
  name : String
  /-- The first line, counted from one. -/
  startLine : Nat
  /-- The last line, counted from one. -/
  endLine : Nat
  score : Score
  deriving DecidableEq, Repr

/-- The name of a declaration, also when it has none. -/
def methodName (source : String) (n : Node) : String := (n.nameText? source).getD "<anonymous>"

/-- The method and constructor declarations of a tree in source order. -/
def methods (t : Tree) : List Node := t.root.descendants.filter fun n => n.kind.isMethod

/-- The scores of all declarations in source order, each inside itself. -/
def methodScores (traversal : Traversal) (policy : Policy) (t : Tree) : List MethodScore :=
  (methods t).map fun n =>
    let name := methodName t.source n
    ⟨name, n.startRow + 1, n.endRow + 1, score traversal ⟨policy, t.source, some name⟩ n⟩

end SuiteMetrics.Scoring
