import Mathlib.Data.Fin.VecNotation
import SuiteMetrics.Proofs.ExactScore

/-!
Scores add up over rules.

The rules of a policy decide what a walk adds, and its nesting set alone decides how deep the walk
stands. Walks of one tree under several settings therefore stay side by side: a relation of their
contexts that every step down and every step back keeps holds at the end (`walkAll_sideBySide`). For
settings that nest alike, one of which has the rules of two others, the depths stay equal and the
score with all rules stays the sum of the two others, whatever has been cut on the way
(`Splits.score_eq`). So a policy's score is the sum over any two parts of its rules, and the order
of the rules is nothing to it (`scores_add_up`).
-/

namespace SuiteMetrics

/-- A part of a sum is at most the sum. -/
theorem Capped.val_le_val_add {limit : Nat} (a b : Capped limit) : a.val ≤ (a + b).val := by
  have bound := a.val_le
  rw [val_add]
  omega

namespace Scoring

open Syntax (Node NodeKind)

/-- Whether the weight of an effect is the same at every depth. -/
def Effect.isFlat : Effect → Bool
  | .flat _ => true
  | .nested => false

namespace Setting

/-! ### Walks side by side -/

section SideBySide

variable {ι : Type} {s : ι → Setting} {R : (ι → Context) → Prop}

mutual

/-- What steps down and steps back keep of the contexts of some walks is kept by the walks of a
node. -/
theorem walkNode_sideBySide (down : ∀ n c, R c → R fun i => (s i).descend n (c i))
    (back : ∀ n c, R c → R fun i => (s i).ascend n (c i)) :
    ∀ (n : Node) (c : ι → Context), R c → R fun i => (s i).walkNode n (c i)
  | ⟨kind, span, name, startRow, endRow, children⟩, c, h => by
      simp only [walkNode_eq]
      exact back _ _ (walkAll_sideBySide down back children _ (down _ _ h))

/-- The same for the walks of some nodes. -/
theorem walkAll_sideBySide (down : ∀ n c, R c → R fun i => (s i).descend n (c i))
    (back : ∀ n c, R c → R fun i => (s i).ascend n (c i)) :
    ∀ (ns : List Node) (c : ι → Context), R c → R fun i => (s i).walkAll ns (c i)
  | [], _, h => h
  | n :: r, c, h => walkAll_sideBySide down back r _ (walkNode_sideBySide down back n c h)

end

end SideBySide

end Setting

/-! ### Sums of contexts -/

/-- A context is at the depth of two others and has the sum of their scores. -/
structure Context.IsSum (c first second : Context) : Prop where
  depth_first : first.depth = c.depth
  depth_second : second.depth = c.depth
  score : c.score = first.score + second.score

namespace Context.IsSum

variable {c first second : Context}

theorem start : IsSum .start .start .start where
  depth_first := rfl
  depth_second := rfl
  score := (Capped.zero_add 0).symm

theorem symm (h : c.IsSum first second) : c.IsSum second first where
  depth_first := h.depth_second
  depth_second := h.depth_first
  score := h.score.trans (Capped.add_comm ..)

theorem enter (h : c.IsSum first second) : c.enter.IsSum first.enter second.enter where
  depth_first := congrArg (· + Capped.ofNat 1) h.depth_first
  depth_second := congrArg (· + Capped.ofNat 1) h.depth_second
  score := h.score

theorem leave (h : c.IsSum first second) : c.leave.IsSum first.leave second.leave where
  depth_first := congrArg Capped.pred h.depth_first
  depth_second := congrArg Capped.pred h.depth_second
  score := h.score

/-- What an effect adds to one part it adds to the sum, since the depths are the same. -/
theorem add_second (h : c.IsSum first second) (effect : Effect) :
    (c.add effect).IsSum first (second.add effect) where
  depth_first := h.depth_first
  depth_second := h.depth_second
  score := by
    simp only [add]
    rw [h.score, h.depth_second, Capped.add_assoc]

theorem foldl_add_second (h : c.IsSum first second) (rules : List Rule) :
    (rules.foldl (fun c rule => c.add rule.effect) c).IsSum first
      (rules.foldl (fun c rule => c.add rule.effect) second) := by
  induction rules generalizing c second with
  | nil => exact h
  | cons rule rules ih => exact ih (h.add_second rule.effect)

end Context.IsSum

namespace Setting

/-! ### Rules in two parts -/

/-- A setting applies the rules of two others, those of the first before those of the second, and
all three nest alike. -/
structure Splits (s first second : Setting) : Prop where
  nests_first : ∀ n, first.nests n = s.nests n
  nests_second : ∀ n, second.nests n = s.nests n
  hits : ∀ n, s.hits n = first.hits n ++ second.hits n

namespace Splits

variable {s first second : Setting} {c c₁ c₂ : Context}

theorem visit (split : s.Splits first second) (n : Node) (h : c.IsSum c₁ c₂) :
    (s.visit n c).IsSum (first.visit n c₁) (second.visit n c₂) := by
  have added := (h.symm.foldl_add_second (first.hits n)).symm.foldl_add_second (second.hits n)
  rwa [← List.foldl_append, ← split.hits] at added

theorem descend (split : s.Splits first second) (n : Node) (h : c.IsSum c₁ c₂) :
    (s.descend n c).IsSum (first.descend n c₁) (second.descend n c₂) := by
  unfold Setting.descend
  rw [split.nests_first, split.nests_second]
  cases s.nests n with
  | true => exact (split.visit n h).enter
  | false => exact split.visit n h

theorem ascend (split : s.Splits first second) (n : Node) (h : c.IsSum c₁ c₂) :
    (s.ascend n c).IsSum (first.ascend n c₁) (second.ascend n c₂) := by
  unfold Setting.ascend
  rw [split.nests_first, split.nests_second]
  cases s.nests n with
  | true => exact h.leave
  | false => exact h

/-- The score is the sum of the scores under both parts. -/
theorem score_eq (split : s.Splits first second) (traversal : Traversal) (root : Node) :
    score traversal s root = score traversal first root + score traversal second root := by
  have walked := walkAll_sideBySide (s := ![s, first, second])
    (R := fun c => (c 0).IsSum (c 1) (c 2)) (fun n _ => split.descend n)
    (fun n _ => split.ascend n) root.children (fun _ => .start) .start
  unfold score
  rw [s.walk_eq_walkAll, first.walk_eq_walkAll, second.walk_eq_walkAll]
  exact walked.score

end Splits

/-- Policies that nest alike split when their rules do. -/
theorem splits_of_rules (p q r : Policy) (source : String) (enclosing : Option String)
    (rules : p.rules = q.rules ++ r.rules) (first : q.nesting = p.nesting)
    (second : r.nesting = p.nesting) :
    Splits ⟨p, source, enclosing⟩ ⟨q, source, enclosing⟩ ⟨r, source, enclosing⟩ where
  nests_first n := by rw [nests, nests, Policy.nests, Policy.nests, first]
  nests_second n := by rw [nests, nests, Policy.nests, Policy.nests, second]
  hits n := by
    simp only [hits, Policy.rulesFor, rules]
    rw [List.filter_append, List.filter_append]

/-! ### Rules of fixed weight -/

theorem score_add_flat {rule : Rule} (flat : rule.effect.isFlat) {c d : Context}
    (h : c.score = d.score) : (c.add rule.effect).score = (d.add rule.effect).score := by
  rw [Context.add, Context.add, h]
  cases weight : rule.effect with
  | flat w => rfl
  | nested =>
      rw [weight] at flat
      cases flat

theorem score_foldl_add_flat {rules : List Rule} (flat : ∀ rule ∈ rules, rule.effect.isFlat)
    {c d : Context} (h : c.score = d.score) :
    (rules.foldl (fun c rule => c.add rule.effect) c).score =
      (rules.foldl (fun c rule => c.add rule.effect) d).score := by
  induction rules generalizing c d with
  | nil => exact h
  | cons rule rules ih =>
      obtain ⟨first, rest⟩ := List.forall_mem_cons.mp flat
      exact ih rest (score_add_flat first h)

theorem score_descend (s : Setting) (n : Node) (c : Context) :
    (s.descend n c).score = (s.visit n c).score := by
  unfold descend
  split
  · rfl
  · rfl

theorem score_ascend (s : Setting) (n : Node) (c : Context) : (s.ascend n c).score = c.score := by
  unfold ascend
  split
  · rfl
  · rfl

/-- Where all rules have fixed weights, it does not matter what nests. -/
theorem score_eq_of_flat (s t : Setting) (hits : ∀ n, s.hits n = t.hits n)
    (flat : ∀ n, ∀ rule ∈ s.hits n, rule.effect.isFlat) (traversal : Traversal) (root : Node) :
    score traversal s root = score traversal t root := by
  have down (n : Node) (c : Fin 2 → Context) (h : (c 0).score = (c 1).score) :
      (s.descend n (c 0)).score = (t.descend n (c 1)).score := by
    rw [score_descend, score_descend, Setting.visit, Setting.visit, ← hits]
    exact score_foldl_add_flat (flat n) h
  have back (n : Node) (c : Fin 2 → Context) (h : (c 0).score = (c 1).score) :
      (s.ascend n (c 0)).score = (t.ascend n (c 1)).score := by
    rw [score_ascend, score_ascend, h]
  unfold score
  rw [s.walk_eq_walkAll, t.walk_eq_walkAll]
  exact walkAll_sideBySide (s := ![s, t]) (R := fun c => (c 0).score = (c 1).score) down back
    root.children (fun _ => .start) rfl

/-! ### The list of rules -/

/-- The setting with other rules and the same nesting set. -/
def withRules (s : Setting) (rules : List Rule) : Setting :=
  { s with policy := { s.policy with rules := rules } }

variable (traversal : Traversal) (s : Setting) (root : Node)

theorem score_append (rules more : List Rule) :
    score traversal (s.withRules (rules ++ more)) root =
      score traversal (s.withRules rules) root + score traversal (s.withRules more) root := by
  have split : (s.withRules (rules ++ more)).Splits (s.withRules rules) (s.withRules more) :=
    splits_of_rules _ _ _ s.source s.enclosing rfl rfl rfl
  exact split.score_eq traversal root

/-- The order of the rules does not matter. -/
theorem score_of_perm {rules others : List Rule} (h : rules.Perm others) :
    score traversal (s.withRules rules) root = score traversal (s.withRules others) root := by
  have append := score_append traversal s root
  induction h with
  | nil => rfl
  | cons rule _ ih =>
      rw [← List.singleton_append, append, ih, ← append, List.singleton_append]
  | swap rule other rules =>
      have front (a b : Rule) : a :: b :: rules = [a] ++ ([b] ++ rules) := rfl
      rw [front, front, append, append [rule], append [rule], append [other],
        ← Capped.add_assoc, ← Capped.add_assoc,
        Capped.add_comm (score traversal (s.withRules [other]) root)]
  | trans _ _ ih ih' => exact ih.trans ih'

end Setting

/-- A rule that is appended never lowers a score. -/
theorem score_le_score_withRule (traversal : Traversal) (p : Policy) (rule : Rule)
    (source : String) (enclosing : Option String) (root : Node) :
    (score traversal ⟨p, source, enclosing⟩ root).val ≤
      (score traversal ⟨p.withRule rule, source, enclosing⟩ root).val := by
  have appended := Setting.score_append traversal ⟨p, source, enclosing⟩ root p.rules [rule]
  exact appended ▸ Capped.val_le_val_add _ _

/-- The score with the idioms of tests is the sum of the structural score and of the score of the
idioms alone, which have fixed weights, so that it does not matter what nests for them. -/
theorem score_testAware (traversal : Traversal) (nesting : List NodeKind) (source : String)
    (enclosing : Option String) (root : Node) :
    score traversal ⟨.testAware, source, enclosing⟩ root =
      score traversal ⟨.structural, source, enclosing⟩ root +
        score traversal ⟨⟨"", Policy.testIdioms, nesting⟩, source, enclosing⟩ root := by
  let idioms (nesting : List NodeKind) : Setting :=
    ⟨⟨"", Policy.testIdioms, nesting⟩, source, enclosing⟩
  have split : Setting.Splits ⟨.testAware, source, enclosing⟩ ⟨.structural, source, enclosing⟩
      (idioms Policy.controlFlow) := Setting.splits_of_rules _ _ _ source enclosing rfl rfl rfl
  have flat : ∀ rule ∈ Policy.testIdioms, rule.effect.isFlat = true := by decide
  have same : score traversal (idioms Policy.controlFlow) root =
      score traversal (idioms nesting) root := by
    refine Setting.score_eq_of_flat (idioms Policy.controlFlow) (idioms nesting) (fun _ => rfl)
      ?_ traversal root
    intro n rule hit
    exact flat rule (List.mem_filter.mp (List.mem_filter.mp hit).1).1
  rw [split.score_eq, same]

/-- Scores add up over the rules of a policy, in whatever way a tree is walked: the score under two
lists of rules, one after the other, is the sum of the scores under each, with the same nesting set,
source and enclosing name. So the order of the rules changes no score, and a rule that is appended
lowers none. The score of a tree with the idioms of tests is the sum of its structural score and of
the score of the idioms alone, and never below the former. -/
theorem scores_add_up (traversal : Traversal) :
    (∀ (s : Setting) (root : Node) (rules more : List Rule),
      score traversal (s.withRules (rules ++ more)) root =
        score traversal (s.withRules rules) root + score traversal (s.withRules more) root) ∧
    (∀ (s : Setting) (root : Node) (rules others : List Rule), rules.Perm others →
      score traversal (s.withRules rules) root = score traversal (s.withRules others) root) ∧
    ∀ (source : String) (enclosing : Option String) (root : Node),
      (∀ (p : Policy) (rule : Rule),
        (score traversal ⟨p, source, enclosing⟩ root).val ≤
          (score traversal ⟨p.withRule rule, source, enclosing⟩ root).val) ∧
      (∀ nesting : List NodeKind,
        score traversal ⟨.testAware, source, enclosing⟩ root =
          score traversal ⟨.structural, source, enclosing⟩ root +
            score traversal ⟨⟨"", Policy.testIdioms, nesting⟩, source, enclosing⟩ root) ∧
      (score traversal ⟨.structural, source, enclosing⟩ root).val ≤
        (score traversal ⟨.testAware, source, enclosing⟩ root).val := by
  refine ⟨fun s root => Setting.score_append traversal s root,
    fun s root _ _ => Setting.score_of_perm traversal s root, ?_⟩
  intro source enclosing root
  have sum (nesting : List NodeKind) := score_testAware traversal nesting source enclosing root
  refine ⟨fun p rule => score_le_score_withRule traversal p rule source enclosing root, sum, ?_⟩
  rw [sum []]
  exact Capped.val_le_val_add _ _

/-- Loops in loops score the same under the rules for control flow and under their reverse. -/
theorem scores_add_up_nestedLoops :
    let s : Setting := ⟨.structural, "", none⟩
    let rules := Policy.structural.rules
    rules.Perm rules.reverse ∧
      (score .recursive (s.withRules rules.reverse) nestedLoops).val = 1 + 2 + 3 + 1 := by
  intro s rules
  have perm : rules.Perm rules.reverse := rules.reverse_perm.symm
  refine ⟨perm, ?_⟩
  rw [← (scores_add_up .recursive).2.1 s nestedLoops rules rules.reverse perm]
  decide

end Scoring

end SuiteMetrics
