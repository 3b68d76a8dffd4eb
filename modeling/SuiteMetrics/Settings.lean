import SuiteMetrics.Failure
import SuiteMetrics.Readability
import SuiteMetrics.Render.Format
import SuiteMetrics.Scoring.Walk
import SuiteMetrics.Violations.Checker

/-!
Settings of the analyses and their defaults.
-/

namespace SuiteMetrics

/-- What a user can set. -/
structure Settings where
  /-- Patterns of files to be left out. -/
  exclude : List String
  /-- The names of the parts of a grouping key. -/
  labels : List String
  traversal : Scoring.Traversal
  checker : Violations.CheckerSettings
  readability : Readability.Settings
  /-- The format of reports when none is asked for. -/
  format : Render.Format

namespace Settings

/-- The rule checker as it is run by default. -/
def defaultChecker : Violations.CheckerSettings where
  program := "pmd"
  args := []
  rulesets :=
    ["category/java/design.xml/CognitiveComplexity",
      "category/java/design.xml/CyclomaticComplexity"]

/-- The readability model as it is run by default. -/
def defaultReadability : Readability.Settings where
  program := "java"
  args := ["-jar", "rsm.jar"]
  workingDir := none
  ignored := ["file", "[INFO]"]

/-- The settings of a user who sets nothing. -/
def default : Settings where
  exclude := ["**/*scaffolding*"]
  labels := ["dataset", "model", "project"]
  traversal := .iterative
  checker := defaultChecker
  readability := defaultReadability
  format := .text

/-- Settings that can be used: there is a grouping key. -/
def validate (s : Settings) : Except Failure Settings :=
  if s.labels.isEmpty then .error (.config .noLabels) else .ok s

/-- The number of parts of a grouping key. -/
def keyLength (s : Settings) : Nat := s.labels.length

end Settings

end SuiteMetrics
