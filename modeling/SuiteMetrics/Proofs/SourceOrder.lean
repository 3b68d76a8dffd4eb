import SuiteMetrics.Proofs.Declarations

/-!
Nodes in source order.

An address says the way from a root down to a node, by the number of the child at every step. The
order of addresses is source order: a node comes before all that is below it, and all below one
child before the next child. `Listed` is the exact form of an enumeration: what stands at an address
is listed, once for every address, and the addresses ascend. Lists of this form are put together
from those of the children (`Listed.children`, `Listed.node`) and thinned out by a test
(`Listed.filterMap`).

The enumeration from a stack of pending nodes ends for every tree and has this form
(`listed_preorder`, `collected_iff`), and so has the list of declarations from which the scores of
methods are made (`methods_in_source_order`).
-/

namespace SuiteMetrics.Syntax

/-! ### Enumerations by address -/

/-- What a look-up has at some addresses, which are all that it has anything at, in their order. -/
structure ListedAt {α : Type} (lookup : List Nat → Option α) (addresses : List (List Nat))
    (xs : List α) : Prop where
  ascending : addresses.Pairwise (· < ·)
  complete : ∀ a, a ∈ addresses ↔ (lookup a).isSome
  entries : xs.map some = addresses.map lookup

/-- All that a look-up has, once for every address, in the order of the addresses. -/
def Listed {α : Type} (lookup : List Nat → Option α) (xs : List α) : Prop :=
  ∃ addresses, ListedAt lookup addresses xs

section Listed

variable {α β : Type}

theorem map_some_filterMap {lookup : List Nat → Option α} (g : α → Option β)
    {addresses : List (List Nat)} {xs : List α} (entries : xs.map some = addresses.map lookup) :
    (xs.filterMap g).map some =
      (addresses.filter fun a => ((lookup a).bind g).isSome).map fun a => (lookup a).bind g := by
  induction addresses generalizing xs with
  | nil => simp_all
  | cons a addresses ih =>
      obtain _ | ⟨x, xs⟩ := xs
      · simp at entries
      · simp only [List.map_cons, List.cons.injEq] at entries
        obtain ⟨here, entries⟩ := entries
        rw [List.filterMap_cons, List.filter_cons, ← here, Option.bind_some]
        cases found : g x with
        | none => simpa [found] using ih entries
        | some y => simp [found, ← here, ih entries]

/-- What a test keeps of a list is what it keeps at the addresses. -/
theorem Listed.filterMap {lookup : List Nat → Option α} {xs : List α} (h : Listed lookup xs)
    (g : α → Option β) : Listed (fun a => (lookup a).bind g) (xs.filterMap g) := by
  obtain ⟨addresses, h⟩ := h
  refine ⟨addresses.filter fun a => ((lookup a).bind g).isSome, h.ascending.filter _, fun a => ?_,
    map_some_filterMap g h.entries⟩
  rw [List.mem_filter, h.complete, and_iff_right_iff_imp]
  intro kept
  obtain ⟨y, hy⟩ := Option.isSome_iff_exists.mp kept
  obtain ⟨x, hx, -⟩ := Option.bind_eq_some_iff.mp hy
  exact Option.isSome_iff_exists.mpr ⟨x, hx⟩

/-- An address below a child, seen with one more child to its left. -/
def moved : List Nat → List Nat
  | [] => []
  | i :: a => (i + 1) :: a

theorem moved_lt_moved {a b : List Nat} (h : a < b) : moved a < moved b := by
  obtain _ | ⟨i, a⟩ := a
  · obtain _ | ⟨j, b⟩ := b
    · exact h
    · exact List.nil_lt_cons ..
  · obtain _ | ⟨j, b⟩ := b
    · exact absurd h (List.not_lt_nil _)
    · rw [moved, moved, List.cons_lt_cons_iff]
      rcases List.cons_lt_cons_iff.mp h with lt | ⟨rfl, lt⟩
      · exact .inl (Nat.succ_lt_succ lt)
      · exact .inr ⟨rfl, lt⟩

/-- What stands below a node whose first child has one look-up and whose other children another. -/
def beside (first later : List Nat → Option α) : List Nat → Option α
  | [] => none
  | 0 :: a => first a
  | (i + 1) :: a => later (i :: a)

theorem ListedAt.ne_nil {lookup : List Nat → Option α} {addresses : List (List Nat)} {xs : List α}
    (h : ListedAt lookup addresses xs) (nothing : lookup [] = none) {a : List Nat}
    (mem : a ∈ addresses) : ∃ i b, a = i :: b := by
  obtain _ | ⟨i, b⟩ := a
  · simp [h.complete, nothing] at mem
  · exact ⟨i, b, rfl⟩

/-- The addresses below a first child are those that begin with zero, and behind them stand the
addresses below the other children. -/
theorem ListedAt.beside {first later : List Nat → Option α} {as bs : List (List Nat)}
    {xs ys : List α} (h : ListedAt first as xs) (k : ListedAt later bs ys)
    (nothing : later [] = none) :
    ListedAt (beside first later) (as.map (0 :: ·) ++ bs.map moved) (xs ++ ys) where
  ascending := by
    refine List.pairwise_append.mpr ⟨?_, ?_, ?_⟩
    · exact h.ascending.map _ fun a b lt => List.cons_lt_cons_iff.mpr (.inr ⟨rfl, lt⟩)
    · exact k.ascending.map _ fun a b => moved_lt_moved
    · intro a ha b hb
      obtain ⟨a, -, rfl⟩ := List.mem_map.mp ha
      obtain ⟨b, mem, rfl⟩ := List.mem_map.mp hb
      obtain ⟨i, b, rfl⟩ := k.ne_nil nothing mem
      exact List.cons_lt_cons_iff.mpr (.inl i.succ_pos)
  complete := fun a => by
    rw [List.mem_append, List.mem_map, List.mem_map]
    constructor
    · rintro (⟨a, mem, rfl⟩ | ⟨a, mem, rfl⟩)
      · exact (h.complete a).mp mem
      · obtain ⟨i, a, rfl⟩ := k.ne_nil nothing mem
        exact (k.complete (i :: a)).mp mem
    · intro stands
      match a with
      | [] => simp [Syntax.beside] at stands
      | 0 :: a => exact .inl ⟨a, (h.complete a).mpr stands, rfl⟩
      | (i + 1) :: a => exact .inr ⟨i :: a, (k.complete (i :: a)).mpr stands, rfl⟩
  entries := by
    have others : (bs.map moved).map (Syntax.beside first later) = bs.map later := by
      rw [List.map_map]
      refine List.map_congr_left fun a mem => ?_
      obtain ⟨i, a, rfl⟩ := k.ne_nil nothing mem
      rfl
    rw [List.map_append, List.map_append, others, h.entries, k.entries, List.map_map]
    rfl

/-- What stands below a node, where each child has a look-up of its own. -/
def below {κ : Type} (lookup : κ → List Nat → Option α) (children : List κ) :
    List Nat → Option α
  | [] => none
  | i :: a => children[i]?.bind fun child => lookup child a

theorem below_cons {κ : Type} (lookup : κ → List Nat → Option α) (child : κ) (children : List κ) :
    below lookup (child :: children) = beside (lookup child) (below lookup children) := by
  funext a
  match a with
  | [] => rfl
  | 0 :: _ => rfl
  | (_ + 1) :: _ => rfl

/-- The lists of the children, one after the other, list what is below a node. -/
theorem Listed.children {κ : Type} {lookup : κ → List Nat → Option α} {list : κ → List α}
    {children : List κ} (each : ∀ child ∈ children, Listed (lookup child) (list child)) :
    Listed (below lookup children) (children.flatMap list) := by
  induction children with
  | nil => exact ⟨[], .nil, fun a => by cases a <;> simp [below], rfl⟩
  | cons child children ih =>
      obtain ⟨⟨as, first⟩, others⟩ := List.forall_mem_cons.mp each
      obtain ⟨bs, later⟩ := ih others
      rw [below_cons, List.flatMap_cons]
      exact ⟨_, first.beside later rfl⟩

/-- What stands at a node, if anything, followed by what is listed below it. -/
theorem Listed.node {lookup under : List Nat → Option α} {x : Option α} {xs : List α}
    (h : Listed under xs) (nothing : under [] = none) (here : lookup [] = x)
    (there : ∀ i a, lookup (i :: a) = under (i :: a)) : Listed lookup (x.toList ++ xs) := by
  obtain ⟨addresses, h⟩ := h
  have same : addresses.map lookup = addresses.map under := by
    refine List.map_congr_left fun a mem => ?_
    obtain ⟨i, b, rfl⟩ := h.ne_nil nothing mem
    exact there i b
  have member : ∀ i a, i :: a ∈ addresses ↔ (lookup (i :: a)).isSome := fun i a => by
    rw [h.complete, there]
  have notNil : [] ∉ addresses := fun mem => by
    obtain ⟨i, b, eq⟩ := h.ne_nil nothing mem
    cases eq
  cases x with
  | none =>
      refine ⟨addresses, h.ascending, fun a => ?_, by simpa [same] using h.entries⟩
      obtain _ | ⟨i, a⟩ := a
      · simp [here, notNil]
      · exact member i a
  | some x =>
      refine ⟨[] :: addresses, ?_, fun a => ?_, by simp [here, same, h.entries]⟩
      · refine List.pairwise_cons.mpr ⟨fun a mem => ?_, h.ascending⟩
        obtain ⟨i, b, rfl⟩ := h.ne_nil nothing mem
        exact List.nil_lt_cons ..
      · obtain _ | ⟨i, a⟩ := a
        · simp [here]
        · simpa using member i a

end Listed

/-! ### Nodes -/

namespace Node

/-- The node at an address. -/
def at? : Node → List Nat → Option Node
  | n, [] => some n
  | n, i :: a => n.children[i]?.bind fun child => child.at? a

theorem preorderAll_eq_flatMap (ns : List Node) : preorderAll ns = ns.flatMap preorder := by
  induction ns with
  | nil => rfl
  | cons n r ih => rw [preorderAll, ih, List.flatMap_cons]

mutual

/-- The recursive enumeration of a tree lists what stands at its addresses. -/
theorem listed_preorder : ∀ n : Node, Listed n.at? n.preorder
  | ⟨kind, span, name, startRow, endRow, children⟩ => by
      rw [preorder, preorderAll_eq_flatMap]
      exact (Listed.children (listed_each children)).node (x := some _) rfl rfl fun _ _ => rfl

theorem listed_each : ∀ ns : List Node, ∀ n ∈ ns, Listed n.at? n.preorder
  | [] => fun _ mem => absurd mem List.not_mem_nil
  | n :: r => List.forall_mem_cons.mpr ⟨listed_preorder n, listed_each r⟩

end

/-! ### The enumeration from a stack -/

/-- The next node that a stack of pending nodes gives, and what is pending then. -/
def next? : List Node → Option (Node × List Node)
  | [] => none
  | n :: pending => some (n, n.children ++ pending)

/-- `Collected pending ns`: a stack of pending nodes gives the nodes `ns` and then no more. -/
inductive Collected : List Node → List Node → Prop where
  | ended {pending : List Node} : next? pending = none → Collected pending []
  | next {pending rest ns : List Node} {n : Node} :
      next? pending = some (n, rest) → Collected rest ns → Collected pending (n :: ns)

theorem collected_drain (pending : List Node) : Collected pending (drain pending) := by
  fun_induction drain pending with
  | case1 => exact .ended rfl
  | case2 n pending ih => exact .next rfl ih

theorem Collected.unique {pending ns ms : List Node} (h : Collected pending ns)
    (k : Collected pending ms) : ns = ms := by
  induction h generalizing ms with
  | ended stop =>
      cases k with
      | ended _ => rfl
      | next more _ => simp [stop] at more
  | next more _ ih =>
      cases k with
      | ended stop => simp [more] at stop
      | next more' k =>
          obtain ⟨rfl, rfl⟩ := Prod.mk.inj (Option.some.inj (more.symm.trans more'))
          rw [ih k]

/-- From a stack with one node everything is collected in the recursive order, and then the stack
gives no more. -/
theorem collected_iff {n : Node} {ns : List Node} : Collected [n] ns ↔ ns = n.preorder := by
  have drained : Collected [n] n.preorder := by
    rw [← descendants_eq_preorder]
    exact collected_drain [n]
  exact ⟨fun h => h.unique drained, fun h => h ▸ drained⟩

end Node

end SuiteMetrics.Syntax

namespace SuiteMetrics.Scoring

open Syntax (Node Tree Listed)

/-- The declaration that stands at an address. -/
def declarationAt? (root : Node) (address : List Nat) : Option Node :=
  (root.at? address).filter fun n => n.kind = .method ∨ n.kind = .constructor

theorem listed_methods (t : Tree) : Listed (declarationAt? t.root) (methods t) := by
  have test : ∀ n : Node, n.kind.isMethod = decide (n.kind = .method ∨ n.kind = .constructor) := by
    intro n
    cases n.kind <;> rfl
  rw [methods, Node.descendants_eq_preorder, ← List.filterMap_eq_filter]
  convert (Node.listed_preorder t.root).filterMap (Option.guard fun n => n.kind.isMethod) using 1
  funext address
  rw [declarationAt?]
  cases t.root.at? address with
  | none => rfl
  | some n => simp only [Option.filter_some, Option.bind_some, Option.guard, test n]

/-- Collecting the nodes from a stack ends for every tree, with each node of the tree once for the
address at which it stands, in source order, as the recursive enumeration has them. So the scores of
methods are those of the declarations in source order, nested ones and the root among them: each
under its name, with its rows counted from one, and with the score of what is below it, judged
inside a method of that name. -/
theorem methods_in_source_order :
    (∀ n : Node, n.descendants = n.preorder ∧ Listed n.at? n.descendants ∧
      ∀ ns, Node.Collected [n] ns ↔ ns = n.descendants) ∧
    ∀ (t : Tree) (policy : Policy) (traversal : Traversal), ∃ declarations : List Node,
      Listed (declarationAt? t.root) declarations ∧
      methodScores traversal policy t = declarations.map fun n =>
        let name := (n.nameText? t.source).getD "<anonymous>"
        { name
          startLine := n.startRow + 1
          endLine := n.endRow + 1
          score := score traversal ⟨policy, t.source, some name⟩ n } := by
  refine ⟨fun n => ?_, fun t policy traversal => ⟨methods t, listed_methods t, rfl⟩⟩
  rw [Node.descendants_eq_preorder]
  exact ⟨rfl, Node.listed_preorder n, fun _ => Node.collected_iff⟩

end SuiteMetrics.Scoring
