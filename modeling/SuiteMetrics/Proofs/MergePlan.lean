import SuiteMetrics.Proofs.Contribution

/-!
Aggregation in any order and any partition.

A `Plan` says how one aggregator comes about from many: aggregators for keys of one length are set
up, operations are performed on them, and they are merged, in any shape. The statistics, the number
of buckets and the number of refusals are those of a single aggregator on which the same operations
are performed in any order (`summaries_of_plan`). The arithmetic is any functions on doubles: sums
are not assumed to be associative or commutative, and rows are equal down to the bits.
-/

namespace SuiteMetrics

/-- How an aggregator comes about from others. -/
inductive Plan where
  /-- A new aggregator. -/
  | fresh
  /-- One operation on an aggregator. -/
  | perform (p : Plan) (op : Operation)
  /-- Two aggregators merged. -/
  | merge (p q : Plan)

namespace Plan

/-- The aggregator of a plan, where all aggregators are for keys of one length. -/
def run (keyLength : Nat) : Plan → Aggregator
  | .fresh => .new keyLength
  | .perform p op => op.apply (p.run keyLength)
  | .merge p q => (p.run keyLength).merge (q.run keyLength)

/-- All operations of a plan. -/
def operations : Plan → List Operation
  | .fresh => []
  | .perform p op => p.operations ++ [op]
  | .merge p q => p.operations ++ q.operations

theorem keyLength_run (keyLength : Nat) (p : Plan) : (p.run keyLength).keyLength = keyLength := by
  induction p with
  | fresh => rfl
  | perform p op ih => rw [run, Aggregator.keyLength_apply, ih]
  | merge p q ihp _ => exact ihp

/-- The aggregator of a plan holds the contributions of all its operations. -/
theorem holds_run (keyLength : Nat) (p : Plan) :
    (p.run keyLength).Holds (p.operations.flatMap (Operation.contributions keyLength)) := by
  induction p with
  | fresh => exact .new keyLength
  | perform p op ih =>
      have step := ih.apply op
      rw [keyLength_run] at step
      rwa [operations, List.flatMap_append, List.flatMap_singleton]
  | merge p q ihp ihq =>
      rw [operations, List.flatMap_append]
      exact ihp.merge ihq

end Plan

/-- However operations are distributed over aggregators for keys of one length, in whatever order
they are performed there and however the aggregators are merged, the rows, the number of buckets and
the number of refusals are those of one aggregator that performs all of them in any order. -/
theorem summaries_of_plan [Arithmetic Float] (keyLength : Nat) (p : Plan) (ops : List Operation)
    (same : p.operations.Perm ops) :
    let single := ops.foldl Operation.apply (.new keyLength)
    (p.run keyLength).summaries = single.summaries ∧ (p.run keyLength).size = single.size ∧
      (p.run keyLength).skipped = single.skipped := by
  obtain ⟨-, single⟩ := (Aggregator.Holds.new keyLength).foldl_apply ops
  exact (p.holds_run keyLength).agree single (same.flatMap_right _)

/-- Three summands whose sum depends on their order, two zeros, a declaration and a refused record,
on three aggregators of which one is empty. -/
def scatteredPlan : Plan :=
  let key : GroupKey := ⟨["d"]⟩
  let record (x : Float) : Operation := .add ⟨key, .readability, x⟩
  .merge
    (.merge .fresh (.perform (.perform .fresh (record 0.1)) (record (-0.0))))
    (.perform (.perform (.perform (.perform (.perform .fresh (record 0.3)) (record (0.0 / 0.0)))
      (.declare key .cognitive)) (record 0.2)) (record 0.0))

/-- The scattered records make the rows of a single aggregator that has them last to first. -/
theorem summaries_of_scatteredPlan :
    let ops := scatteredPlan.operations.reverse
    let single := ops.foldl Operation.apply (.new 1)
    scatteredPlan.operations.Perm ops ∧ (scatteredPlan.run 1).summaries = single.summaries ∧
      (scatteredPlan.run 1).size = single.size ∧ (scatteredPlan.run 1).skipped = single.skipped :=
  ⟨(List.reverse_perm _).symm, summaries_of_plan 1 scatteredPlan _ (List.reverse_perm _).symm⟩

end SuiteMetrics
