import SuiteMetrics.Java.Concrete
import SuiteMetrics.Proofs.SourceOrder

/-!
Conversion of a concrete tree by a cursor.

The conversion is looked at for any cursor of which only its moves are known: `Moves.Follows` says
that they go as in a tree, from an address to that of the first child, of the next sibling or of the
node above, that a move fails where there is no such node, and that the start is never left. The
loop makes one turn for every node when it is reached and one when all below it has been converted
(`turns_node`, `turns_rest`), so it ends after a number of turns that is known from the tree, with
the tree and the faults that recursion gives. The cursor of the conversion itself is one that moves
so (`follows_inTree`).
-/

namespace SuiteMetrics.Java

open Syntax (Node ErrorSite Listed)

namespace Concrete

/-- The part of a concrete tree at an address. -/
def at? : Concrete → List Nat → Option Concrete
  | c, [] => some c
  | c, i :: a => c.children[i]?.bind fun child => child.at? a

theorem size_eq (c : Concrete) : c.size = sizeAll c.children + 1 := by
  cases c
  rfl

theorem at?_append (c : Concrete) (a b : List Nat) :
    c.at? (a ++ b) = (c.at? a).bind fun part => part.at? b := by
  induction a generalizing c with
  | nil => rfl
  | cons i a ih =>
      rw [List.cons_append, at?, at?, Option.bind_assoc]
      exact Option.bind_congr fun child _ => ih child

theorem at?_child {t c : Concrete} {a : List Nat} (h : t.at? a = some c) (i : Nat) :
    t.at? (a ++ [i]) = c.children[i]? := by
  rw [at?_append, h, Option.bind_some, at?]
  cases c.children[i]? <;> rfl

/-! ### Trees and faults by recursion, address by address -/

theorem nodes_eq_map (source : String) (cs : List Concrete) :
    nodes source cs = cs.map (node source) := by
  induction cs with
  | nil => rfl
  | cons c r ih => rw [nodes, ih, List.map_cons]

theorem node_eq (source : String) (c : Concrete) :
    c.node source = { c.element.leaf source with children := c.children.map (node source) } := by
  cases c
  rw [node, nodes_eq_map]

theorem at?_node (source : String) (t : Concrete) (a : List Nat) :
    (t.node source).at? a = (t.at? a).map (node source) := by
  induction a generalizing t with
  | nil => rfl
  | cons i a ih =>
      rw [Node.at?, at?, Option.map_bind, node_eq]
      dsimp only
      rw [List.getElem?_map, Option.bind_map]
      exact Option.bind_congr fun child _ => ih child

theorem faultsAll_eq_flatMap (cs : List Concrete) : faultsAll cs = cs.flatMap faults := by
  induction cs with
  | nil => rfl
  | cons c r ih => rw [faultsAll, ih, List.flatMap_cons]

/-- The fault at an address. -/
def faultAt? (t : Concrete) (a : List Nat) : Option ErrorSite :=
  (t.at? a).bind fun c => c.element.fault?

theorem faultAt?_below (t : Concrete) (i : Nat) (a : List Nat) :
    t.faultAt? (i :: a) = Syntax.below faultAt? t.children (i :: a) :=
  Option.bind_assoc ..

mutual

/-- The faults of a tree are those at its addresses, in source order. -/
theorem listed_faults : ∀ t : Concrete, Listed t.faultAt? t.faults
  | ⟨element, children⟩ => by
      rw [faults, faultsAll_eq_flatMap]
      exact (Listed.children (listed_faults_each children)).node rfl rfl (faultAt?_below _)

theorem listed_faults_each : ∀ cs : List Concrete, ∀ c ∈ cs, Listed c.faultAt? c.faults
  | [] => fun _ mem => absurd mem List.not_mem_nil
  | c :: r => List.forall_mem_cons.mpr ⟨listed_faults c, listed_faults_each r⟩

end

/-- A node is made of the element of a concrete node, and has as many children. -/
structure Mirrors (source : String) (c : Concrete) (n : Node) : Prop where
  own : { n with children := [] } = c.element.leaf source
  width : n.children.length = c.children.length

theorem mirrors_node (source : String) (c : Concrete) : Mirrors source c (c.node source) where
  own := by rw [node_eq]; rfl
  width := by rw [node_eq, List.length_map]

end Concrete

/-! ### Any cursor -/

/-- A cursor of some kind: what the node says of itself where it stands, and its moves. A move that
fails leaves the cursor where it is. -/
structure Moves (κ : Type) where
  element : κ → Element
  firstChild? : κ → Option κ
  nextSibling? : κ → Option κ
  parent? : κ → Option κ

/-- Where the loop of a conversion stands: at a node that it has just begun, or at one below which
all has been converted. -/
structure Loop (κ : Type) where
  arrived : Bool
  cursor : κ
  made : Conversion

namespace Moves

variable {κ : Type} (m : Moves κ) (source : String)

/-- The loop at the start of the cursor. -/
def begin (k : κ) : Loop κ := ⟨true, k, Conversion.start.push source (m.element k)⟩

/-- One turn of the loop, none if it ends. -/
def turn? : Loop κ → Option (Loop κ)
  | ⟨true, k, c⟩ =>
    match m.firstChild? k with
    | some child => some ⟨true, child, c.push source (m.element child)⟩
    | none => some ⟨false, k, c⟩
  | ⟨false, k, c⟩ =>
    match m.nextSibling? k with
    | some sibling => some ⟨true, sibling, c.attach.push source (m.element sibling)⟩
    | none => (m.parent? k).map fun parent => ⟨false, parent, c.attach⟩

/-- So many turns of the loop lead from one place to another. -/
inductive Turns : Nat → Loop κ → Loop κ → Prop where
  | refl (l : Loop κ) : Turns 0 l l
  | turn {n : Nat} {l l' l'' : Loop κ} :
      m.turn? source l = some l' → Turns n l' l'' → Turns (n + 1) l l''

/-- The moves of a cursor go as in a tree, where `At k a` says that the cursor `k` stands at the
address `a`. -/
structure Follows (t : Concrete) (At : κ → List Nat → Prop) : Prop where
  element {k a} : At k a → (t.at? a).map Concrete.element = some (m.element k)
  firstChild {k a} : At k a →
    match m.firstChild? k with
    | some child => At child (a ++ [0])
    | none => t.at? (a ++ [0]) = none
  nextSibling {k a i} : At k (a ++ [i]) →
    match m.nextSibling? k with
    | some sibling => At sibling (a ++ [i + 1])
    | none => t.at? (a ++ [i + 1]) = none
  parent {k a i} : At k (a ++ [i]) → ∃ above, m.parent? k = some above ∧ At above a
  root {k} : At k [] → m.nextSibling? k = none ∧ m.parent? k = none

variable {m} {t : Concrete} {At : κ → List Nat → Prop}

theorem Turns.trans {source : String} {n p : Nat} {l l' l'' : Loop κ} (h : m.Turns source n l l')
    (h' : m.Turns source p l' l'') : m.Turns source (n + p) l l'' := by
  induction h with
  | refl => rwa [Nat.zero_add]
  | turn step _ ih =>
      rw [Nat.succ_add]
      exact .turn step (ih h')

/-! ### The moves at a node of the tree -/

section Follows

variable (follows : m.Follows t At) {k : κ} {a : List Nat} {i : Nat} {c child : Concrete}

include follows

theorem Follows.element_eq (stands : At k a) (here : t.at? a = some c) :
    m.element k = c.element := by
  have said := follows.element stands
  rw [here] at said
  exact (Option.some.inj said).symm

theorem Follows.exists_at? (stands : At k a) : ∃ c, t.at? a = some c := by
  have said := follows.element stands
  obtain ⟨c, here, -⟩ := Option.map_eq_some_iff.mp said
  exact ⟨c, here⟩

theorem Follows.firstChild?_eq_none (stands : At k a) (leaf : t.at? (a ++ [0]) = none) :
    m.firstChild? k = none := by
  have moved := follows.firstChild stands
  split at moved
  case h_1 =>
    obtain ⟨c, there⟩ := follows.exists_at? moved
    simp [leaf] at there
  case h_2 fails => exact fails

theorem Follows.exists_firstChild? (stands : At k a) (there : t.at? (a ++ [0]) = some child) :
    ∃ d, m.firstChild? k = some d ∧ At d (a ++ [0]) := by
  have moved := follows.firstChild stands
  split at moved
  case h_1 d moves => exact ⟨d, moves, moved⟩
  case h_2 => simp [there] at moved

theorem Follows.nextSibling?_eq_none (stands : At k (a ++ [i]))
    (last : t.at? (a ++ [i + 1]) = none) : m.nextSibling? k = none := by
  have moved := follows.nextSibling stands
  split at moved
  case h_1 =>
    obtain ⟨c, there⟩ := follows.exists_at? moved
    simp [last] at there
  case h_2 fails => exact fails

theorem Follows.exists_nextSibling? (stands : At k (a ++ [i]))
    (there : t.at? (a ++ [i + 1]) = some child) :
    ∃ d, m.nextSibling? k = some d ∧ At d (a ++ [i + 1]) := by
  have moved := follows.nextSibling stands
  split at moved
  case h_1 d moves => exact ⟨d, moves, moved⟩
  case h_2 => simp [there] at moved

end Follows

/-! ### Turns below a node -/

/-- A conversion in which the parts of a node have been converted. -/
def complete (source : String) (c : Concrete) (made : Conversion) : Conversion :=
  ⟨(c.element.leaf source, (c.children.map (Concrete.node source)).reverse) :: made.unfinished,
    c.faults.reverse ++ made.faults⟩

/-- A complete node is attached to the node around it. -/
theorem attach_complete {around : Node × List Node} {unfinished : List (Node × List Node)}
    (made : Conversion) (open' : made.unfinished = around :: unfinished) (c : Concrete) :
    (complete source c made).attach =
      ⟨(around.1, c.node source :: around.2) :: unfinished, c.faults.reverse ++ made.faults⟩ := by
  rw [Conversion.attach, complete, open']
  simp only [Conversion.finish, List.reverse_reverse, ← Concrete.node_eq]

theorem reverse_fault? (e : Element) : e.fault?.toList.reverse = e.fault?.toList := by
  cases e.fault? <;> rfl

/-- Once a conversion has begun a node without children, the node is complete. -/
theorem push_eq_complete (e : Element) (made : Conversion) :
    made.push source e = complete source ⟨e, []⟩ made := by
  rw [Conversion.push, complete, Concrete.faults, Concrete.faultsAll, List.append_nil,
    reverse_fault?]
  rfl

mutual

/-- The loop that has begun a node completes it, back at the node, in one turn for the node and two
for every node below it. -/
theorem turns_node (follows : m.Follows t At) : ∀ (c : Concrete) {k : κ} {a : List Nat}
    (made : Conversion), At k a → t.at? a = some c →
      ∃ k', At k' a ∧ m.Turns source (2 * Concrete.sizeAll c.children + 1)
        ⟨true, k, made.push source c.element⟩ ⟨false, k', complete source c made⟩
  | ⟨element, []⟩, k, a, made, stands, here => by
      have fails := follows.firstChild?_eq_none stands (Concrete.at?_child here 0)
      refine ⟨k, stands, .turn ?_ (.refl _)⟩
      rw [turn?, fails, push_eq_complete]
  | ⟨element, child :: rest⟩, k, a, made, stands, here => by
      have there : t.at? (a ++ [0]) = some child := Concrete.at?_child here 0
      obtain ⟨d, moves, stands'⟩ := follows.exists_firstChild? stands there
      have first : m.turn? source ⟨true, k, made.push source element⟩ =
          some ⟨true, d, (made.push source element).push source child.element⟩ := by
        simp only [turn?, moves, follows.element_eq stands' there]
      obtain ⟨d', stands'', below⟩ := turns_node follows child (made.push source element) stands' there
      have others : ∀ j, t.at? (a ++ [0 + 1 + j]) = rest[j]? := fun j => by
        rw [Concrete.at?_child here, Nat.zero_add, Nat.add_comm, List.getElem?_cons_succ]
      have attached := attach_complete source (made.push source element) rfl child
      obtain ⟨k', back, after⟩ := turns_rest follows rest stands'' others attached
      refine ⟨k', back, ?_⟩
      have all := (Turns.turn first below).trans after
      have count : 2 * Concrete.sizeAll child.children + 1 + 1 + (2 * Concrete.sizeAll rest + 1) =
          2 * Concrete.sizeAll (child :: rest) + 1 := by
        rw [Concrete.sizeAll, Concrete.size_eq]
        omega
      rw [count] at all
      simpa [complete, Conversion.push, Concrete.faults, Concrete.faultsAll, reverse_fault?,
        Concrete.nodes_eq_map] using all

/-- The loop that has completed a child goes through the siblings after it and back to the node
above, which then has them all. -/
theorem turns_rest (follows : m.Follows t At) : ∀ (rest : List Concrete) {k : κ} {a : List Nat}
    {i : Nat} {made : Conversion} {around : Node} {done : List Node}
    {unfinished : List (Node × List Node)} {faults : List ErrorSite}, At k (a ++ [i]) →
      (∀ j, t.at? (a ++ [i + 1 + j]) = rest[j]?) →
      made.attach = ⟨(around, done) :: unfinished, faults⟩ →
      ∃ k', At k' a ∧ m.Turns source (2 * Concrete.sizeAll rest + 1) ⟨false, k, made⟩
        ⟨false, k', ⟨(around, (rest.map (Concrete.node source)).reverse ++ done) :: unfinished,
          (Concrete.faultsAll rest).reverse ++ faults⟩⟩
  | [], k, a, i, made, around, done, unfinished, faults, stands, others, attached => by
      have fails := follows.nextSibling?_eq_none stands (others 0)
      obtain ⟨k', moves, back⟩ := follows.parent stands
      refine ⟨k', back, .turn ?_ (.refl _)⟩
      rw [turn?, fails, moves, attached]
      rfl
  | c :: rest, k, a, i, made, around, done, unfinished, faults, stands, others, attached => by
      have there : t.at? (a ++ [i + 1]) = some c := others 0
      obtain ⟨d, moves, stands'⟩ := follows.exists_nextSibling? stands there
      have first : m.turn? source ⟨false, k, made⟩ =
          some ⟨true, d, made.attach.push source c.element⟩ := by
        simp only [turn?, moves, follows.element_eq stands' there]
      obtain ⟨d', stands'', below⟩ := turns_node follows c made.attach stands' there
      have others' : ∀ j, t.at? (a ++ [i + 1 + 1 + j]) = rest[j]? := fun j => by
        have next := others (j + 1)
        rwa [List.getElem?_cons_succ, ← Nat.add_assoc, Nat.add_right_comm _ j 1] at next
      have open' : made.attach.unfinished = (around, done) :: unfinished := by rw [attached]
      obtain ⟨k', back, after⟩ := turns_rest follows rest stands'' others' (attach_complete source _ open' c)
      refine ⟨k', back, ?_⟩
      have all := (Turns.turn first below).trans after
      have count : 2 * Concrete.sizeAll c.children + 1 + 1 + (2 * Concrete.sizeAll rest + 1) =
          2 * Concrete.sizeAll (c :: rest) + 1 := by
        rw [Concrete.sizeAll, Concrete.size_eq]
        omega
      rw [count] at all
      simpa [attached, Concrete.faultsAll] using all

end

/-- The loop ends, after two turns for every node but the first one of the root, with the tree and
the faults that recursion gives. -/
theorem exists_ending (follows : m.Follows t At) {k : κ} (start : At k []) :
    ∃ ending, m.Turns source (2 * t.size - 1) (m.begin source k) ending ∧
      m.turn? source ending = none ∧ ending.made.result = (t.node source, t.faults) := by
  have here : t.at? [] = some t := rfl
  obtain ⟨k', back, turns⟩ := turns_node source follows t .start start here
  obtain ⟨last, stays⟩ := follows.root back
  refine ⟨⟨false, k', complete source t .start⟩, ?_, ?_, ?_⟩
  · have count : 2 * t.size - 1 = 2 * Concrete.sizeAll t.children + 1 := by
      rw [Concrete.size_eq]
      omega
    rw [count, begin, follows.element_eq start here]
    exact turns
  · simp only [turn?, last, stays, Option.map_none]
  · simp only [Conversion.result, complete, Conversion.finish, Conversion.start, List.append_nil,
      List.reverse_reverse, ← Concrete.node_eq]

end Moves

/-! ### The cursor of a conversion -/

namespace Cursor

/-- The moves of the cursor in a concrete tree. -/
def inTree : Moves Cursor where
  element c := c.focus.element
  firstChild? := firstChild?
  nextSibling? := nextSibling?
  parent? := parent?

/-- A cursor stands at an address of a tree: the root at the start, else a child of the node where
the cursor stood before it went down, with the siblings after it to its right. -/
inductive Stands (t : Concrete) : Cursor → List Nat → Prop where
  | root : Stands t (atRoot t) []
  | child {focus part : Concrete} {right before after : List Concrete}
      {above : List (Concrete × List Concrete)} {a : List Nat} :
      Stands t ⟨focus, right, above⟩ a → focus.children = before ++ part :: after →
      Stands t ⟨part, after, (focus, right) :: above⟩ (a ++ [before.length])

variable {t : Concrete} {c : Cursor} {a : List Nat}

theorem Stands.at?_eq (h : Stands t c a) : t.at? a = some c.focus := by
  induction h with
  | root => rfl
  | child _ children ih =>
      rw [Concrete.at?_child ih, children, List.getElem?_append_right (Nat.le_refl _)]
      simp

theorem Stands.of_child {i : Nat} (h : Stands t c (a ++ [i])) :
    ∃ focus right above before, Stands t ⟨focus, right, above⟩ a ∧ i = before.length ∧
      focus.children = before ++ c.focus :: c.right ∧ c.above = (focus, right) :: above := by
  generalize address : a ++ [i] = b at h
  cases h with
  | root => simp at address
  | child h children =>
      obtain ⟨rfl, last⟩ := List.append_inj' address rfl
      exact ⟨_, _, _, _, h, (List.cons.inj last).1, children, rfl⟩

theorem Stands.eq_atRoot (h : Stands t c []) : c = atRoot t := by
  generalize address : [] = b at h
  cases h with
  | root => rfl
  | child => simp at address

/-- The moves of a cursor in a tree go as in the tree. -/
theorem follows_inTree (t : Concrete) : inTree.Follows t (Stands t) where
  element h := by rw [h.at?_eq]; rfl
  firstChild {k a} h := by
    obtain ⟨⟨element, children⟩, right, above⟩ := k
    have here := h.at?_eq
    cases children with
    | nil => exact Concrete.at?_child here 0
    | cons part after =>
        have first : Concrete.children ⟨element, part :: after⟩ = [] ++ part :: after := rfl
        exact h.child first
  nextSibling {k a i} h := by
    obtain ⟨focus, right, above, before, up, rfl, children, levels⟩ := h.of_child
    obtain ⟨part, after, levels⟩ := k
    subst levels
    cases after with
    | nil =>
        have there := Concrete.at?_child up.at?_eq (before.length + 1)
        rw [children, List.getElem?_eq_none (by simp)] at there
        exact there
    | cons next after =>
        have longer : focus.children = (before ++ [part]) ++ next :: after := by
          simpa using children
        have stands := up.child longer
        rwa [List.length_append, List.length_singleton] at stands
  parent {k a i} h := by
    obtain ⟨focus, right, above, before, h, -, -, levels⟩ := h.of_child
    exact ⟨⟨focus, right, above⟩, by simp only [inTree, parent?, levels], h⟩
  root {k} h := by
    rw [h.eq_atRoot]
    exact ⟨rfl, rfl⟩

end Cursor

/-- The conversion by a cursor makes the turns of the loop. -/
theorem Conversion.run_eq (source : String) (l : Loop Cursor) :
    run source l.arrived l.cursor l.made =
      match Cursor.inTree.turn? source l with
      | some next => run source next.arrived next.cursor next.made
      | none => l.made.result := by
  obtain ⟨arrived, k, made⟩ := l
  cases arrived with
  | true =>
      rw [run]
      simp only [Moves.turn?, Cursor.inTree]
      cases k.firstChild? <;> rfl
  | false =>
      rw [run]
      simp only [Moves.turn?, Cursor.inTree]
      cases k.nextSibling? with
      | some _ => rfl
      | none => cases k.parent? <;> rfl

theorem Conversion.run_turns {source : String} {n : Nat} {l l' : Loop Cursor}
    (h : Cursor.inTree.Turns source n l l') :
    run source l.arrived l.cursor l.made = run source l'.arrived l'.cursor l'.made := by
  induction h with
  | refl => rfl
  | turn step _ ih =>
      rw [run_eq, step]
      exact ih

/-- The conversion by a cursor gives the tree and the faults that recursion gives. -/
theorem Concrete.convert_eq (source : String) (t : Concrete) :
    t.convert source = (t.node source, t.faults) := by
  obtain ⟨ending, turns, stop, made⟩ :=
    Moves.exists_ending source (Cursor.follows_inTree t) .root
  calc t.convert source
      = Conversion.run source ending.arrived ending.cursor ending.made :=
        Conversion.run_turns turns
    _ = ending.made.result := by rw [Conversion.run_eq, stop]
    _ = (t.node source, t.faults) := made

/-- For every tree and every cursor that moves as in the tree, from the root, the loop of the
conversion ends: it makes two turns for every node but the first one of the root. The tree that it
returns has a node at an address exactly if the concrete tree has one there, with as many children,
and made of the element that stands there; and the faults are the sites of the nodes that are
stretches without a construct or missing tokens, each once, in source order. A node whose construct
scoring does not tell apart from others is a `Construct.program`. The conversion that parsed sources
go through gives the same. -/
theorem conversion_is_faithful {κ : Type} (m : Moves κ) (t : Concrete)
    (At : κ → List Nat → Prop) (follows : m.Follows t At) (source : String) (k : κ)
    (start : At k []) :
    ∃ (root : Node) (errors : List ErrorSite) (ending : Loop κ),
      m.Turns source (2 * t.size - 1) (m.begin source k) ending ∧
      m.turn? source ending = none ∧ ending.made.result = (root, errors) ∧
      (∀ a, Option.Rel (Concrete.Mirrors source) (t.at? a) (root.at? a)) ∧
      Listed t.faultAt? errors ∧ t.convert source = (root, errors) := by
  obtain ⟨ending, turns, stop, made⟩ := Moves.exists_ending source follows start
  refine ⟨t.node source, t.faults, ending, turns, stop, made, fun a => ?_, t.listed_faults,
    t.convert_eq source⟩
  rw [Concrete.at?_node]
  cases t.at? a with
  | none => exact .none
  | some c => exact .some (c.mirrors_node source)

/-- A method in which a stretch fits nothing, with a call before it that lacks its semicolon. -/
def brokenMethod : Concrete :=
  let element (construct : Construct) (start stop : Nat) (name : Option Text.Span) : Element :=
    ⟨construct, ⟨start, 0, start⟩, ⟨stop, 0, stop⟩, name⟩
  ⟨element .program 0 24 none,
    [⟨element .method 0 24 (some ⟨5, 6⟩),
      [⟨element .invocation 11 14 (some ⟨11, 12⟩), []⟩, ⟨element (.missing ";") 14 14 none, []⟩,
        ⟨element .fault 15 20 none, []⟩]⟩]⟩

/-- Five nodes take nine turns, up over two levels at the end. -/
theorem conversion_is_faithful_brokenMethod :
    Cursor.inTree.Follows brokenMethod (Cursor.Stands brokenMethod) ∧
      Cursor.Stands brokenMethod (.atRoot brokenMethod) [] ∧
      ∃ (root : Node) (ending : Loop Cursor),
        Cursor.inTree.Turns "void f() { g() return }" 9
          (Cursor.inTree.begin "void f() { g() return }" (.atRoot brokenMethod)) ending ∧
        Cursor.inTree.turn? "void f() { g() return }" ending = none ∧
        ending.made.result =
          (root, [⟨";", ⟨0, 14⟩, ⟨0, 14⟩⟩, ⟨"ERROR", ⟨0, 15⟩, ⟨0, 20⟩⟩]) := by
  refine ⟨Cursor.follows_inTree brokenMethod, .root, ?_⟩
  obtain ⟨root, errors, ending, turns, stop, made, -, -, converted⟩ :=
    conversion_is_faithful Cursor.inTree brokenMethod _ (Cursor.follows_inTree brokenMethod)
      "void f() { g() return }" (.atRoot brokenMethod) .root
  have faults : errors = brokenMethod.faults := by
    rw [Concrete.convert_eq] at converted
    exact (Prod.mk.inj converted).2.symm
  exact ⟨root, ending, turns, stop, by rw [made, faults]; rfl⟩

end SuiteMetrics.Java
