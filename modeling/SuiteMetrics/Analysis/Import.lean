import SuiteMetrics.Analysis.Score

/-!
Importing saved reports of the rule checker.

Every report is read, and its totals are collected by group. Reports that cannot be read are passed
over; one that is readable but broken counts, without values.
-/

namespace SuiteMetrics.Analysis

open Files (InputFile)
open Json (Value Fields)

/-- The endings of files that are reports. -/
def reportEndings : List String := ["xml", "json"]

/-- The metrics that are imported. -/
def importedMetrics : List Metric := [.pmdCognitive, .pmdCyclomatic]

/-- The values of one report. -/
structure ImportedReport extends Entry where
  /-- The path below the root. -/
  report : String

/-- The text of a report, if it can be read. -/
def reportText? (f : InputFile) : Option String :=
  match f.content with
  | .ok bytes => Text.Utf8.decode? bytes
  | .error _ => none

/-- The values in the text of a report. -/
def reportValues (text : String) : MetricValues Float :=
  (Violations.Report.ofText text).measurements.foldl (fun values (metric, value) =>
    MetricValues.put values metric value) []

/-- The values of a report file, if it can be read. -/
def ImportedReport.ofFile? (keyLength : Nat) (f : InputFile) : Option ImportedReport :=
  (reportText? f).map fun text =>
    { key := f.key keyLength, report := f.relative, values := reportValues text }

/-- How reports are gathered. -/
def importGathering (keyLength : Nat) : Gathering ImportedReport where
  keyLength := keyLength
  metrics := importedMetrics
  row? := ImportedReport.ofFile? keyLength
  entry := ImportedReport.toEntry

/-- The result of an import. -/
structure ImportAnalysis where
  labels : List String
  /-- The reports in the order of their paths. -/
  reports : List ImportedReport
  summary : List SummaryRow
  /-- The number of values that belong to no group. -/
  skippedRecords : Nat

namespace ImportAnalysis

/-- The name of the analysis. -/
def name : String := "import"

/-- What the analysis does, in a line. -/
def description : String := "Import saved PMD complexity reports and aggregate per group"

/-- The result of finished work. -/
def ofGathered (labels : List String) (p : Gathered ImportedReport) : ImportAnalysis where
  labels := labels
  reports := p.rows.mergeSort fun a b => !(decide (b.report < a.report))
  summary := p.aggregator.summaries
  skippedRecords := p.aggregator.skipped

/-- Imports reports. -/
def ofFiles (labels : List String) (files : List InputFile) : ImportAnalysis :=
  ofGathered labels ((importGathering labels.length).ofFiles files)

/-- The row of a report. -/
def reportRow (a : ImportAnalysis) (r : ImportedReport) : Fields :=
  (Report.keyColumns a.labels r.key.labels).insertAll
    (("report", .string r.report) ::
      importedMetrics.map fun m => (m.name, .ofFloat? (Assoc.get? m r.values)))

/-- The report of a result. -/
def report (a : ImportAnalysis) : Report where
  command := name
  filesAnalyzed := a.reports.length
  skippedRecords := a.skippedRecords
  summary := Report.summaryRows a.labels a.summary
  detailed := a.reports.map a.reportRow

end ImportAnalysis

end SuiteMetrics.Analysis
