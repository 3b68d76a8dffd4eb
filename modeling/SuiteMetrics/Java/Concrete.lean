import SuiteMetrics.Java.Token
import SuiteMetrics.Syntax.Tree

/-!
Concrete syntax of Java, and the syntax tree made of it.

A concrete tree names the constructs of the language that matter for scoring and the faults found
in a source: stretches that fit nothing, and tokens that are missing. It is turned into a syntax
tree by a cursor that moves down, sideways and up, with the nodes that are not yet complete on a
stack, so that the depth of a source costs no call stack (`Cursor.convert`). `Concrete.node` and
`Concrete.faults` say the same by recursion.
-/

namespace SuiteMetrics.Java

open Syntax (Node NodeKind Place ErrorSite)
open Text (Span)

/-- The constructs of the language that are told apart. -/
inductive Construct where
  | program
  | ifStatement
  | forStatement
  | enhancedForStatement
  | whileStatement
  | doStatement
  | switch
  | switchLabel
  | catchClause
  | ternary
  | binary
  | labeledStatement
  | invocation
  | annotationUse
  | assertStatement
  | method
  | constructor
  /-- A stretch of source that fits no construct. -/
  | fault
  /-- A token that is not there but should be. -/
  | missing (token : String)
  deriving DecidableEq, Repr

/-- What a node of a concrete tree says of itself. -/
structure Element where
  construct : Construct
  start : Mark
  stop : Mark
  /-- The bytes of the name, if the construct has one. -/
  name : Option Span
  deriving DecidableEq, Repr

/-- A concrete tree. -/
structure Concrete where
  element : Element
  children : List Concrete

namespace Element

/-- The bytes of an element. -/
def span (e : Element) : Span := ⟨e.start.offset, e.stop.offset⟩

/-- The kind of node that an element becomes. Labels of a switch count only with the word `case`. -/
def kind (source : String) (e : Element) : NodeKind :=
  match e.construct with
  | .program => .other
  | .ifStatement => .ifThen
  | .forStatement => .forLoop
  | .enhancedForStatement => .forLoop
  | .whileStatement => .whileLoop
  | .doStatement => .doLoop
  | .switch => .switch
  | .switchLabel =>
    let text := Text.trimStart ((e.span.text? source).getD "").toList
    if "case".toList.isPrefixOf text then .caseLabel else .other
  | .catchClause => .catchClause
  | .ternary => .ternary
  | .binary => .binary
  | .labeledStatement => .labeled
  | .invocation => .invocation
  | .annotationUse => .annotationUse
  | .assertStatement => .assertion
  | .method => .method
  | .constructor => .constructor
  | .fault => .error
  | .missing _ => .other

/-- Whether nodes of a kind keep their names. -/
def keepsName (kind : NodeKind) : Bool :=
  kind == .invocation || kind == .annotationUse || kind.isMethod

/-- The node of an element, without children. -/
def leaf (source : String) (e : Element) : Node :=
  let kind := e.kind source
  ⟨kind, e.span, if keepsName kind then e.name else none, e.start.row, e.stop.row, []⟩

/-- The site of an element that is a fault. -/
def fault? (e : Element) : Option ErrorSite :=
  let site (kind : String) : ErrorSite :=
    ⟨kind, ⟨e.start.row, e.start.column⟩, ⟨e.stop.row, e.stop.column⟩⟩
  match e.construct with
  | .fault => some (site "ERROR")
  | .missing token => some (site token)
  | _ => none

end Element

/-! ### By recursion -/

namespace Concrete

mutual

/-- The syntax tree of a concrete tree. -/
def node (source : String) : Concrete → Node
  | ⟨element, children⟩ => { element.leaf source with children := nodes source children }

/-- The syntax trees of some concrete trees. -/
def nodes (source : String) : List Concrete → List Node
  | [] => []
  | c :: r => c.node source :: nodes source r

end

mutual

/-- The faults of a concrete tree, each node before its children. -/
def faults : Concrete → List ErrorSite
  | ⟨element, children⟩ => element.fault?.toList ++ faultsAll children

/-- The faults of some concrete trees. -/
def faultsAll : List Concrete → List ErrorSite
  | [] => []
  | c :: r => c.faults ++ faultsAll r

end

mutual

/-- The number of nodes of a concrete tree. -/
def size : Concrete → Nat
  | ⟨_, children⟩ => sizeAll children + 1

/-- The number of nodes of some concrete trees. -/
def sizeAll : List Concrete → Nat
  | [] => 0
  | c :: r => c.size + sizeAll r

end

end Concrete

/-! ### By a cursor -/

/-- A place in a concrete tree: the node there, the siblings after it, and for every node above,
the nearest first, that node and the siblings after it. -/
structure Cursor where
  focus : Concrete
  right : List Concrete
  above : List (Concrete × List Concrete)

namespace Cursor

/-- The cursor at the root of a tree. -/
def atRoot (c : Concrete) : Cursor := ⟨c, [], []⟩

/-- The cursor moved to the first child. -/
def firstChild? (c : Cursor) : Option Cursor :=
  match c.focus.children with
  | [] => none
  | child :: right => some ⟨child, right, (c.focus, c.right) :: c.above⟩

/-- The cursor moved to the next sibling. -/
def nextSibling? (c : Cursor) : Option Cursor :=
  match c.right with
  | [] => none
  | sibling :: right => some ⟨sibling, right, c.above⟩

/-- The cursor moved to the node above. -/
def parent? (c : Cursor) : Option Cursor :=
  match c.above with
  | [] => none
  | (focus, right) :: above => some ⟨focus, right, above⟩

/-- The number of nodes to the right of the cursor's node and of all nodes above it. -/
def ahead (c : Cursor) : Nat :=
  Concrete.sizeAll c.right + c.above.foldr (fun level n => Concrete.sizeAll level.2 + n) 0

/-- The number of moves that can still be made, counted generously. -/
def moves (arrived : Bool) (c : Cursor) : Nat :=
  if arrived then 3 * (Concrete.sizeAll c.focus.children + c.ahead) + c.above.length + 1
  else 3 * c.ahead + c.above.length

theorem moves_firstChild? {c d : Cursor} (h : c.firstChild? = some d) :
    d.moves true < c.moves true := by
  unfold firstChild? at h
  split at h
  · simp at h
  · rename_i child right children
    obtain rfl := Option.some.inj h
    have size : Concrete.size child = Concrete.sizeAll child.children + 1 := by
      cases child; rfl
    simp only [moves, ahead, if_true, children, Concrete.sizeAll, List.foldr_cons,
      List.length_cons]
    omega

theorem moves_nextSibling? {c d : Cursor} (h : c.nextSibling? = some d) :
    d.moves true < c.moves false := by
  unfold nextSibling? at h
  split at h
  · simp at h
  · rename_i sibling right siblings
    obtain rfl := Option.some.inj h
    have size : Concrete.size sibling = Concrete.sizeAll sibling.children + 1 := by
      cases sibling; rfl
    simp only [moves, ahead, if_true, siblings, Concrete.sizeAll, Bool.false_eq_true, if_false]
    omega

theorem moves_parent? {c d : Cursor} (h : c.parent? = some d) (last : c.nextSibling? = none) :
    d.moves false < c.moves false := by
  unfold parent? at h
  split at h
  · simp at h
  · rename_i focus right above levels
    obtain rfl := Option.some.inj h
    have none_right : c.right = [] := by
      unfold nextSibling? at last
      split at last
      · assumption
      · simp at last
    simp only [moves, ahead, Bool.false_eq_true, if_false, levels, none_right, Concrete.sizeAll,
      List.foldr_cons, List.length_cons]
    omega

theorem moves_false_lt (c : Cursor) : c.moves false < c.moves true := by
  simp only [moves, Bool.false_eq_true, if_false, if_true]
  omega

end Cursor

/-- What a conversion has made: the nodes that are not complete, the innermost first, each with
its finished children backwards; and the faults so far, backwards. -/
structure Conversion where
  unfinished : List (Node × List Node)
  faults : List ErrorSite

namespace Conversion

/-- Before the first node. -/
def start : Conversion := ⟨[], []⟩

/-- A node with its finished children. -/
def finish (entry : Node × List Node) : Node := { entry.1 with children := entry.2.reverse }

/-- A node is begun. -/
def push (source : String) (e : Element) (c : Conversion) : Conversion :=
  ⟨(e.leaf source, []) :: c.unfinished, e.fault?.toList ++ c.faults⟩

/-- The innermost node is complete and becomes the last child of the node around it. -/
def attach (c : Conversion) : Conversion :=
  match c.unfinished with
  | done :: (around, children) :: r =>
    { c with unfinished := (around, finish done :: children) :: r }
  | _ => c

/-- The tree made, and the faults in the order in which they were met. -/
def result (c : Conversion) : Node × List ErrorSite :=
  match c.unfinished with
  | entry :: _ => (finish entry, c.faults.reverse)
  | [] => (⟨.other, ⟨0, 0⟩, none, 0, 0, []⟩, c.faults.reverse)

/-- The conversion of everything that the cursor can still reach. It has just arrived at a node
that is begun, or everything below its node has been converted. -/
def run (source : String) (arrived : Bool) (cursor : Cursor) (c : Conversion) :
    Node × List ErrorSite :=
  match arrived with
  | true =>
    match _h : cursor.firstChild? with
    | some child => run source true child (c.push source child.focus.element)
    | none => run source false cursor c
  | false =>
    match _h : cursor.nextSibling? with
    | some sibling => run source true sibling (c.attach.push source sibling.focus.element)
    | none =>
      match _h : cursor.parent? with
      | some parent => run source false parent c.attach
      | none => c.result
termination_by cursor.moves arrived
decreasing_by
  · exact Cursor.moves_firstChild? (by assumption)
  · exact Cursor.moves_false_lt cursor
  · exact Cursor.moves_nextSibling? (by assumption)
  · exact Cursor.moves_parent? (by assumption) (by assumption)

end Conversion

/-- The syntax tree of a concrete tree and its faults in source order, by a cursor. -/
def Concrete.convert (source : String) (c : Concrete) : Node × List ErrorSite :=
  Conversion.run source true (.atRoot c) (Conversion.start.push source c.element)

end SuiteMetrics.Java
