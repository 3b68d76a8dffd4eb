/-!
The metrics of a source file, in the order in which reports list them.
-/

namespace SuiteMetrics

/-- A metric of a source file. -/
inductive Metric where
  /-- Cognitive complexity from control flow. -/
  | cognitive
  /-- Cognitive complexity with weights for test idioms. -/
  | testAware
  /-- The number of decision points. -/
  | cyclomatic
  /-- Cognitive complexity as the rule checker reports it. -/
  | pmdCognitive
  /-- Cyclomatic complexity as the rule checker reports it. -/
  | pmdCyclomatic
  /-- The score of the readability model. -/
  | readability
  /-- The maintainability index between 0 and 100. -/
  | maintainability
  deriving DecidableEq, Repr, Inhabited

namespace Metric

/-- The metrics in their order. -/
def all : List Metric :=
  [.cognitive, .testAware, .cyclomatic, .pmdCognitive, .pmdCyclomatic, .readability,
    .maintainability]

/-- The written name of a metric, also its column's name. -/
def name : Metric → String
  | .cognitive => "cognitive"
  | .testAware => "test_aware"
  | .cyclomatic => "cyclomatic"
  | .pmdCognitive => "pmd_cognitive"
  | .pmdCyclomatic => "pmd_cyclomatic"
  | .readability => "readability"
  | .maintainability => "maintainability"

/-- The metric with a written name. -/
def ofName? (s : String) : Option Metric := all.find? fun m => m.name == s

/-- The place of a metric in the order. -/
def rank : Metric → Nat
  | .cognitive => 0
  | .testAware => 1
  | .cyclomatic => 2
  | .pmdCognitive => 3
  | .pmdCyclomatic => 4
  | .readability => 5
  | .maintainability => 6

/-- Metrics are ordered by their places. -/
instance : LT Metric := ⟨fun a b => a.rank < b.rank⟩

instance (a b : Metric) : Decidable (a < b) := inferInstanceAs (Decidable (a.rank < b.rank))

theorem rank_injective {a b : Metric} (h : a.rank = b.rank) : a = b := by
  cases a <;> cases b <;> first | rfl | (simp [rank] at h)

end Metric

end SuiteMetrics
