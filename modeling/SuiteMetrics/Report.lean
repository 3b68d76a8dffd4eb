import SuiteMetrics.Aggregate
import SuiteMetrics.Json.Value
import SuiteMetrics.Render.Csv

/-!
Reports and their rows.

Every analysis gives a report of one shape: a summary table with a row for every group and metric,
and a detailed table with a row for every input. A row is a JSON object whose keys are the columns
in order. The columns of the grouping key come first.
-/

namespace SuiteMetrics

open Json (Value Fields)

/-- The result of an analysis, ready to be written. -/
structure Report where
  /-- The analysis, also the beginning of the names of the report's files. -/
  command : String
  /-- The number of inputs. -/
  filesAnalyzed : Nat
  /-- The number of records that were refused. -/
  skippedRecords : Nat
  summary : List Fields
  detailed : List Fields

namespace Report

/-- Each label with its part of a key, null where the key is shorter. -/
def labelled : List String → List String → Fields
  | [], _ => []
  | label :: labels, [] => (label, .null) :: labelled labels []
  | label :: labels, part :: key => (label, .string part) :: labelled labels key

/-- The columns of a grouping key. -/
def keyColumns (labels key : List String) : Fields := Fields.insertAll [] (labelled labels key)

/-- The columns of a group's statistics. A group without values has a count of zero and nulls. -/
def statisticsColumns : Option (Summary Float) → Fields
  | some s =>
    [("count", .ofNat s.count), ("mean", .ofFloat s.mean), ("min", .ofFloat s.min),
      ("max", .ofFloat s.max), ("median", .ofFloat s.median), ("total", .ofFloat s.total)]
  | none =>
    ("count", .ofNat 0) :: ["mean", "min", "max", "median", "total"].map fun c => (c, .null)

/-- The row of a group and metric. -/
def summaryRow (labels : List String) (row : SummaryRow) : Fields :=
  (keyColumns labels row.key.labels).insertAll
    (("metric", .string row.metric.name) :: statisticsColumns row.summary)

/-- The rows of all groups and metrics. -/
def summaryRows (labels : List String) (rows : List SummaryRow) : List Fields :=
  rows.map (summaryRow labels)

/-- A report as one value. -/
def value (r : Report) : Value :=
  .object [
    ("command", .string r.command),
    ("files_analyzed", .ofNat r.filesAnalyzed),
    ("skipped_records", .ofNat r.skippedRecords),
    ("summary", .array (r.summary.map .object)),
    ("detailed", .array (r.detailed.map .object))]

/-- The names and contents of the files of a report's tables. -/
def csvFiles (r : Report) : List (String × String) :=
  [(r.command ++ "_detailed.csv", Render.Csv.table (r.detailed.map .object)),
    (r.command ++ "_summary.csv", Render.Csv.table (r.summary.map .object))]

end Report

end SuiteMetrics
