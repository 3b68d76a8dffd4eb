import SuiteMetrics.Text.Span

/-!
Nodes of a syntax tree.

A node knows which construct it is, the bytes and rows it covers, the bytes of its name, and its
children in source order. Two enumerations of a node with all nodes below it are given: `preorder`
by recursion, and `descendants` from a stack of pending nodes, which needs no call stack however
deep the tree is.
-/

namespace SuiteMetrics.Syntax

open Text (Span)

/-- The constructs that scoring tells apart. -/
inductive NodeKind where
  | ifThen
  | forLoop
  | whileLoop
  | doLoop
  | switch
  | catchClause
  | ternary
  /-- A label of a switch with the word `case`. -/
  | caseLabel
  | binary
  | labeled
  | invocation
  | annotationUse
  | assertion
  | method
  | constructor
  | error
  | other
  deriving DecidableEq, Repr, Inhabited

namespace NodeKind

/-- The constructs in their order. -/
def all : List NodeKind :=
  [.ifThen, .forLoop, .whileLoop, .doLoop, .switch, .catchClause, .ternary, .caseLabel, .binary,
    .labeled, .invocation, .annotationUse, .assertion, .method, .constructor, .error, .other]

/-- The written name of a construct. -/
def name : NodeKind → String
  | .ifThen => "if"
  | .forLoop => "for"
  | .whileLoop => "while"
  | .doLoop => "do"
  | .switch => "switch"
  | .catchClause => "catch"
  | .ternary => "ternary"
  | .caseLabel => "switch_label"
  | .binary => "binary_expression"
  | .labeled => "labeled_statement"
  | .invocation => "method_invocation"
  | .annotationUse => "annotation"
  | .assertion => "assert_statement"
  | .method => "method_declaration"
  | .constructor => "constructor_declaration"
  | .error => "error"
  | .other => "other"

/-- The construct with a written name. -/
def ofName? (s : String) : Option NodeKind := all.find? fun kind => kind.name == s

/-- Whether a construct declares a method or a constructor. -/
def isMethod (kind : NodeKind) : Bool := kind == .method || kind == .constructor

end NodeKind

/-- A node with everything below it. -/
structure Node where
  kind : NodeKind
  span : Span
  /-- The bytes of the name, for constructs that have one. -/
  name : Option Span
  /-- The first row, counted from zero. -/
  startRow : Nat
  /-- The last row, counted from zero. -/
  endRow : Nat
  children : List Node
  deriving Inhabited

namespace Node

/-- The source text of a node, empty when its span does not fit the source. -/
def text (source : String) (n : Node) : String := (n.span.text? source).getD ""

/-- The source text of a node's name. -/
def nameText? (source : String) (n : Node) : Option String := n.name.bind (Span.text? source)

mutual

/-- The number of nodes of a tree. -/
def size : Node → Nat
  | ⟨_, _, _, _, _, children⟩ => sizeAll children + 1

/-- The number of nodes of some trees. -/
def sizeAll : List Node → Nat
  | [] => 0
  | n :: r => n.size + sizeAll r

end

mutual

/-- A node and all nodes below it, each before its children. -/
def preorder : Node → List Node
  | ⟨kind, span, name, startRow, endRow, children⟩ =>
    ⟨kind, span, name, startRow, endRow, children⟩ :: preorderAll children

/-- The nodes of some trees, one tree after the other. -/
def preorderAll : List Node → List Node
  | [] => []
  | n :: r => n.preorder ++ preorderAll r

end

theorem size_eq (n : Node) : n.size = sizeAll n.children + 1 := by
  cases n; rfl

theorem preorder_eq (n : Node) : n.preorder = n :: preorderAll n.children := by
  cases n; rfl

theorem sizeAll_append (xs ys : List Node) : sizeAll (xs ++ ys) = sizeAll xs + sizeAll ys := by
  induction xs with
  | nil => simp [sizeAll]
  | cons n r ih => simp [sizeAll, ih]; omega

theorem preorderAll_append (xs ys : List Node) :
    preorderAll (xs ++ ys) = preorderAll xs ++ preorderAll ys := by
  induction xs with
  | nil => simp [preorderAll]
  | cons n r ih => simp [preorderAll, ih]

/-- The nodes reached from a stack of pending nodes: the top is listed and its children take its
place. -/
def drain : List Node → List Node
  | [] => []
  | n :: pending => n :: drain (n.children ++ pending)
termination_by pending => sizeAll pending
decreasing_by
  simp only [sizeAll_append, sizeAll, size_eq]
  omega

/-- A node and all nodes below it, from a stack that starts with the node. -/
def descendants (n : Node) : List Node := drain [n]

end Node

end SuiteMetrics.Syntax
