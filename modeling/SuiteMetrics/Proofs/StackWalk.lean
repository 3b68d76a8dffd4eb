import SuiteMetrics.Proofs.ExactScore

/-!
The walk from a stack, iteration by iteration.

The stack mixes pending siblings of several levels with the ends of levels. `Pending` says what it
stands for: the nodes above the frame on top, and the places that the frames still have to visit, in
order. A node without a level of its own leaves no frame, so these are not read off the stack; they
are carried along. One iteration takes the first place off or leaves a level (`Standing.advance`),
and in both cases the work that is left falls by one. So the number of iterations is known from the
tree, and every place is visited in its turn at its own depth (`Standing.finish`, `stack_walk_ends`).
-/

namespace SuiteMetrics.Scoring.Setting

open Syntax (Node Placed)

/-! ### Iterations -/

/-- Whether a frame is the end of a level. -/
def Frame.isLeave : Frame → Bool
  | .enter _ => false
  | .leave => true

/-- The number of levels that are left before a stack is empty. -/
def Frame.levels (fs : List Frame) : Nat := fs.countP Frame.isLeave

@[simp] theorem Frame.levels_enter (n : Node) (fs : List Frame) :
    Frame.levels (.enter n :: fs) = Frame.levels fs :=
  List.countP_cons_of_neg (by simp [isLeave])

@[simp] theorem Frame.levels_leave (fs : List Frame) :
    Frame.levels (.leave :: fs) = Frame.levels fs + 1 :=
  List.countP_cons_of_pos rfl

/-- The node that the next iteration visits, and the depth at which the walk stands. -/
def Walk.visit? : Walk → Option (Node × Nat)
  | ⟨.enter n :: _, c⟩ => some (n, c.depth.val)
  | _ => none

variable (s : Setting)

/-- A walk after some iterations, if it makes so many. -/
def after : Nat → Walk → Option Walk
  | 0, w => some w
  | k + 1, w => (s.step? w).bind (after k)

/-- The visits of some iterations, in their order. -/
def visits : Nat → Walk → List (Node × Nat)
  | 0, _ => []
  | k + 1, w => w.visit?.toList ++ ((s.step? w).map (visits k)).getD []

theorem after_add (j k : Nat) (w : Walk) : s.after (j + k) w = (s.after j w).bind (s.after k) := by
  induction j generalizing w with
  | zero => simp [after]
  | succ j ih =>
      rw [Nat.succ_add, after, after, Option.bind_assoc]
      exact Option.bind_congr fun v _ => ih v

/-- A run goes through all iterations. -/
theorem run_after {k : Nat} {w v : Walk} (h : s.after k w = some v) : s.run w = s.run v := by
  induction k generalizing w with
  | zero => rw [Option.some.inj h]
  | succ k ih =>
      obtain ⟨u, step, rest⟩ := Option.bind_eq_some_iff.mp h
      rw [run]
      split
      case h_1 stop => simp [stop] at step
      case h_2 u' step' =>
        obtain rfl := Option.some.inj (step'.symm.trans step)
        exact ih rest

/-- No step takes anything off the score. -/
theorem score_le_of_step? {w v : Walk} (h : s.step? w = some v) :
    w.context.score.val ≤ v.context.score.val := by
  obtain ⟨pending, c⟩ := w
  match pending with
  | [] => simp [step?] at h
  | .leave :: pending =>
      obtain rfl := Option.some.inj h
      exact Nat.le_refl _
  | .enter n :: pending =>
      obtain rfl := Option.some.inj h
      have uncut : c.score.val = min limit c.score.val := (Nat.min_eq_right c.score.val_le).symm
      obtain ⟨-, score⟩ := foldl_add_exact (s.hits n) uncut
      have grown : c.score.val ≤ (s.visit n c).score.val := by
        have := c.score.val_le
        rw [visit, score]
        omega
      cases s.nests n with
      | false => exact grown
      | true => exact grown

/-! ### What a stack stands for -/

/-- `s.Pending above fs ps`: where the nodes `above` stand above the frame on top, the nearest
first, the frames `fs` still visit the places `ps` in this order. -/
inductive Pending : List Node → List Frame → List Placed → Prop where
  | done : Pending [] [] []
  | enter {above : List Node} {fs : List Frame} {ps : List Placed} (n : Node) :
      Pending above fs ps → Pending above (.enter n :: fs) (n.placed above ++ ps)
  /-- All below a node that nests has been dealt with. -/
  | leave {above : List Node} {fs : List Frame} {ps : List Placed} {n : Node} :
      s.nests n → Pending above fs ps → Pending (n :: above) (.leave :: fs) ps
  /-- All below a node that does not nest has been dealt with, which leaves no mark. -/
  | flat {above : List Node} {fs : List Frame} {ps : List Placed} {n : Node} :
      ¬ s.nests n → Pending above fs ps → Pending (n :: above) fs ps

variable {s} {above : List Node} {fs : List Frame} {ps : List Placed} {w v : Walk}

/-- The levels on a stack are those of the nesting nodes above its top. -/
theorem Pending.levels_eq (h : s.Pending above fs ps) : Frame.levels fs = above.countP s.nests := by
  induction h with
  | done => rfl
  | enter n _ ih => rw [Frame.levels_enter, ih]
  | leave nests _ ih => rw [List.countP_cons_of_pos nests, Frame.levels_leave, ih]
  | flat flat _ ih => rw [List.countP_cons_of_neg flat, ih]

/-- A stack without frames visits nothing more. -/
theorem Pending.of_nil (h : s.Pending above [] ps) : ps = [] := by
  generalize empty : [] = fs at h
  induction h with
  | done => rfl
  | enter => cases empty
  | leave => cases empty
  | flat _ _ ih => exact ih empty

/-- A node on top of a stack is visited first, and then what is below it. -/
theorem Pending.of_enter {n : Node} (h : s.Pending above (.enter n :: fs) ps) :
    ∃ above' rest, s.Pending above' fs rest ∧ ps = n.placed above' ++ rest := by
  generalize top : Frame.enter n :: fs = gs at h
  induction h with
  | done => cases top
  | enter m h _ =>
      obtain ⟨⟨⟩, rfl⟩ := List.cons.inj top
      exact ⟨_, _, h, rfl⟩
  | leave => cases top
  | flat _ _ ih => exact ih top

/-- A level that ends changes nothing of what is visited. -/
theorem Pending.of_leave (h : s.Pending above (.leave :: fs) ps) :
    ∃ above', s.Pending above' fs ps := by
  generalize top : Frame.leave :: fs = gs at h
  induction h with
  | done => cases top
  | enter => cases top
  | leave _ h _ =>
      obtain ⟨-, rfl⟩ := List.cons.inj top
      exact ⟨_, h⟩
  | flat _ _ ih => exact ih top

/-- Nodes put on a stack are visited before what was on it. -/
theorem Pending.enterAll (h : s.Pending above fs ps) (ns : List Node) :
    s.Pending above (ns.map .enter ++ fs) (Node.placedAll above ns ++ ps) := by
  induction ns with
  | nil => exact h
  | cons n r ih =>
      rw [Node.placedAll, List.append_assoc]
      exact .enter n ih

/-- The frames that a node leaves visit what is below it. -/
theorem Pending.framesBelow (h : s.Pending above fs ps) (n : Node) :
    s.Pending (n :: above) (s.framesBelow n ++ fs)
      (Node.placedAll (n :: above) n.children ++ ps) := by
  rw [Setting.framesBelow, List.append_assoc]
  by_cases nests : s.nests n
  · rw [if_pos nests]
    exact (Pending.leave nests h).enterAll n.children
  · rw [if_neg nests]
    exact (Pending.flat nests h).enterAll n.children

/-! ### One iteration, all iterations -/

/-- A walk with the places before it: its depth is that of the nodes above its top frame, and no
place is too deep to be counted. -/
structure Standing (s : Setting) (above : List Node) (w : Walk) (ps : List Placed) : Prop where
  pending : s.Pending above w.pending ps
  depth : w.context.depth.val = above.countP s.nests
  fits : ∀ p ∈ ps, (p.node :: p.above).countP s.nests ≤ limit

/-- How a place looks when it is visited. -/
def seen (s : Setting) (p : Placed) : Node × Nat := (p.node, s.depthOf p)

/-- The iterations that some places take: one for every place, and one more to leave the level of a
node that nests. -/
def work (s : Setting) (ps : List Placed) : Nat := ps.length + ps.countP fun p => s.nests p.node

/-- The depth of a walk is the number of levels on its stack. -/
theorem Standing.depth_eq_levels (h : s.Standing above w ps) :
    w.context.depth.val = Frame.levels w.pending :=
  h.depth.trans h.pending.levels_eq.symm

/-- A walk that has something on its stack makes a step. The step visits the place that is first, if
any is visited, and one iteration less is left. -/
theorem Standing.advance (h : s.Standing above w ps) (more : w.pending ≠ []) :
    ∃ v above' rest, s.step? w = some v ∧ s.Standing above' v rest ∧
      ps.map s.seen = w.visit?.toList ++ rest.map s.seen ∧
      s.work ps + Frame.levels w.pending = s.work rest + Frame.levels v.pending + 1 := by
  obtain ⟨pending, depth, fits⟩ := h
  obtain ⟨stack, c⟩ := w
  match stack with
  | [] => exact absurd rfl more
  | .leave :: fs =>
      obtain ⟨above', pending'⟩ := pending.of_leave
      refine ⟨_, above', ps, rfl, ⟨pending', ?_, fits⟩, rfl, ?_⟩
      · rw [Context.leave, Capped.val_pred, depth, ← pending.levels_eq, Frame.levels_leave,
          pending'.levels_eq, Nat.add_sub_cancel]
      · rw [Frame.levels_leave, ← Nat.add_assoc]
  | .enter n :: fs =>
      obtain ⟨above', rest, pending', rfl⟩ := pending.of_enter
      rw [Node.placed_eq, List.cons_append, List.forall_mem_cons] at fits
      -- The frame is no end of a level, so the same nesting nodes stand above what lies under it.
      have depth' : c.depth.val = s.depthOf ⟨above', n⟩ := by
        rw [depth, ← pending.levels_eq, Frame.levels_enter, pending'.levels_eq, depthOf]
      have uncut : c.score.val = min limit c.score.val := (Nat.min_eq_right c.score.val_le).symm
      obtain ⟨deeper, -⟩ := s.descend_exact depth' uncut fits.1
      refine ⟨_, n :: above', _, rfl, ⟨pending'.framesBelow n, deeper, fits.2⟩, ?_, ?_⟩
      · rw [Node.placed_eq, List.cons_append, List.map_cons, seen, ← depth']
        rfl
      · have levels : Frame.levels (s.framesBelow n ++ fs) =
            Frame.levels fs + if s.nests n then 1 else 0 := by
          rw [(pending'.framesBelow n).levels_eq, pending'.levels_eq, List.countP_cons]
        rw [Frame.levels_enter, levels, Node.placed_eq, List.cons_append, work, work,
          List.length_cons, List.countP_cons]
        dsimp only
        omega

/-- The walk makes as many iterations as there is work, visits all places in their order and ends
with an empty stack at depth zero. -/
theorem Standing.finish {k : Nat} (h : s.Standing above w ps)
    (left : s.work ps + Frame.levels w.pending = k) :
    s.visits k w = ps.map s.seen ∧
      ∃ score, s.after k w = some ⟨[], ⟨score, 0⟩⟩ := by
  -- The induction is on the iterations that are left; each step takes one.
  induction k generalizing above w ps with
  | zero =>
      obtain ⟨stack, c⟩ := w
      match stack with
      | [] =>
          obtain rfl := h.pending.of_nil
          have flat : c.depth = 0 := Capped.ext h.depth_eq_levels
          exact ⟨rfl, c.score, by rw [after, ← flat]⟩
      | f :: fs =>
          obtain ⟨v, -, rest, -, -, -, less⟩ := h.advance (List.cons_ne_nil f fs)
          omega
  | succ k ih =>
      have more : w.pending ≠ [] := by
        intro empty
        have none_left := h.pending
        rw [empty] at none_left left
        obtain rfl := none_left.of_nil
        simp [work, Frame.levels] at left
      obtain ⟨v, above', rest, step, standing, seen, less⟩ := h.advance more
      obtain ⟨visited, ended⟩ := ih standing (by omega)
      rw [visits, after, step, seen, ← visited]
      exact ⟨rfl, ended⟩

/-- Every walk on the way is standing. -/
theorem Standing.after {k : Nat} (h : s.Standing above w ps) (reached : s.after k w = some v) :
    ∃ above' rest, s.Standing above' v rest := by
  induction k generalizing above w ps with
  | zero => exact ⟨above, ps, Option.some.inj reached ▸ h⟩
  | succ k ih =>
      obtain ⟨u, step, reached⟩ := Option.bind_eq_some_iff.mp reached
      have more : w.pending ≠ [] := fun empty => by
        obtain ⟨stack, c⟩ := w
        subst empty
        simp [step?] at step
      obtain ⟨u', above', rest, step', standing, -, -⟩ := h.advance more
      obtain rfl := Option.some.inj (step.symm.trans step')
      exact ih standing reached

/-- A walk that starts flat with the children of a root has all places below the root before it. -/
theorem standing_start {root : Node} {c : Context} (shallow : s.Shallow root) (flat : c.depth = 0) :
    s.Standing [] ⟨root.children.map .enter, c⟩ root.placedBelow where
  pending := by
    have all := (Pending.done (s := s)).enterAll root.children
    rwa [List.append_nil, List.append_nil] at all
  depth := by rw [flat]; rfl
  fits := shallow

/-- The walk from a stack, for every tree no way down which passes more nesting nodes than a count
can hold, started at depth zero with any score. At every iteration the depth is the number of levels
on the stack, and no iteration takes anything off the score. Every node below the root is visited
once for each place at which it stands, in pre-order, at the depth of the nesting nodes above it and
below the root. After as many iterations as there are nodes below the root, with the nesting ones
counted twice, the stack is empty and the depth is zero; that is where the walk ends. -/
theorem stack_walk_ends (s : Setting) (root : Node) (c : Context) (shallow : s.Shallow root)
    (flat : c.depth = 0) :
    let start : Walk := ⟨root.children.map .enter, c⟩
    let below := root.placedBelow.map Placed.node
    let iterations := below.length + below.countP s.nests
    (∀ k w, s.after k start = some w → w.context.depth.val = Frame.levels w.pending) ∧
    (∀ k w v, s.after k start = some w → s.after (k + 1) start = some v →
      w.context.score.val ≤ v.context.score.val) ∧
    root.preorder = root :: (s.visits iterations start).map Prod.fst ∧
    s.visits iterations start = root.placedBelow.map (fun p => (p.node, p.above.countP s.nests)) ∧
    ∃ score, s.after iterations start = some ⟨[], ⟨score, 0⟩⟩ ∧
      s.after (iterations + 1) start = none ∧ s.run start = ⟨score, 0⟩ := by
  intro start below iterations
  have standing : s.Standing [] start root.placedBelow := standing_start shallow flat
  have none_left : Frame.levels start.pending = 0 := standing.pending.levels_eq
  have total : s.work root.placedBelow + Frame.levels start.pending = iterations := by
    rw [none_left, work, Nat.add_zero]
    simp only [iterations, below, List.length_map, List.countP_map]
    rfl
  obtain ⟨visited, score, ended⟩ := standing.finish total
  refine ⟨fun k w reached => ?_, fun k w v reached next => ?_, ?_, visited, score, ended, ?_, ?_⟩
  · obtain ⟨above, rest, standing⟩ := standing.after reached
    exact standing.depth_eq_levels
  · rw [after_add, reached, Option.bind_some, after, Option.bind_eq_some_iff] at next
    obtain ⟨u, step, last⟩ := next
    obtain rfl := Option.some.inj last
    exact s.score_le_of_step? step
  · rw [visited, List.map_map]
    exact root.preorder_eq_placedBelow
  · rw [after_add, ended]
    rfl
  · rw [s.run_after ended, run]
    rfl

/-- Six nodes below the root, four of which nest, make ten iterations, whatever the score was before;
the last one leaves the level of the last loop. -/
theorem stack_walk_ends_nestedLoops :
    let s : Setting := ⟨.structural, "", none⟩
    let start : Walk := ⟨nestedLoops.children.map .enter, ⟨.ofNat 5, 0⟩⟩
    s.Shallow nestedLoops ∧ (⟨.ofNat 5, 0⟩ : Context).depth = 0 ∧
      ∃ score, s.after 10 start = some ⟨[], ⟨score, 0⟩⟩ ∧ s.run start = ⟨score, 0⟩ := by
  refine ⟨by decide, rfl, ?_⟩
  obtain ⟨-, -, -, -, score, ended, -, run⟩ :=
    stack_walk_ends ⟨.structural, "", none⟩ nestedLoops ⟨.ofNat 5, 0⟩ (by decide) rfl
  exact ⟨score, ended, run⟩

end SuiteMetrics.Scoring.Setting
