import SuiteMetrics.Tool
import SuiteMetrics.Violations.Report

/-!
Running the rule checker on a file.

The checker is asked for an XML report of one file. Its answer counts when it ended well or with
the status by which it says that it found violations.
-/

namespace SuiteMetrics.Violations

open Tool (Call Instrument Measurement Output)

/-- How the rule checker is run. -/
structure CheckerSettings where
  program : String
  /-- Arguments before all others. -/
  args : List String
  rulesets : List String
  deriving DecidableEq, Repr

/-- The call that checks a file. -/
def CheckerSettings.call (s : CheckerSettings) (file : String) : Call where
  program := s.program
  args := s.args ++ ["check", "-f", "xml", "-R", ",".intercalate s.rulesets, "-d", file]
  workingDir := none

/-- The status of a checker that found violations. -/
def violationsFound : Int := 4

/-- Whether the answer of the checker counts. -/
def isUsable (o : Output) : Bool := o.success || o.status = some violationsFound

/-- The values in an answer of the checker. -/
def readOutput (o : Output) : List Measurement :=
  if isUsable o then (Report.ofText o.stdout).measurements.map fun (m, x) => ⟨m, x⟩ else []

/-- The rule checker as an instrument. -/
def checker (s : CheckerSettings) : Instrument where
  name := "pmd"
  metrics := Rule.all.map Rule.metric
  call? file := some (s.call file)
  read _ := readOutput

end SuiteMetrics.Violations
