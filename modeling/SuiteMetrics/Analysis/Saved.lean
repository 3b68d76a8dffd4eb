import SuiteMetrics.Analysis.Import
import SuiteMetrics.Analysis.Soundness
import SuiteMetrics.Json.Record

/-!
The saved form of analyses.

Every result has a form in JSON, a record of its parts, which can be read back. Values of metrics
are an object with the metrics' names as its keys.
-/

namespace SuiteMetrics

open Json (Value Fields must may)

/-! ### Statistics -/

namespace GroupKey

/-- The saved form of a key: its labels. -/
def value (k : GroupKey) : Value := .ofList .string k.labels

/-- The key with a saved form. -/
def ofValue? (v : Value) : Option GroupKey := v.texts?.map GroupKey.mk

end GroupKey

namespace Summary

/-- The saved form of statistics. -/
def value (s : Summary Float) : Value :=
  .object [("count", .ofNat s.count), ("mean", .ofFloat s.mean), ("min", .ofFloat s.min),
    ("max", .ofFloat s.max), ("median", .ofFloat s.median), ("total", .ofFloat s.total)]

/-- The statistics with a saved form. -/
def ofValue? (v : Value) : Option (Summary Float) := do
  match ← v.parts? ["count", "mean", "min", "max", "median", "total"] with
  | [count, mean, min, max, median, total] =>
    pure {
      count := ← must Value.nat? count
      mean := ← must Value.real? mean
      min := ← must Value.real? min
      max := ← must Value.real? max
      median := ← must Value.real? median
      total := ← must Value.real? total }
  | _ => none

end Summary

namespace SummaryRow

/-- The saved form of a row of statistics. -/
def value (r : SummaryRow) : Value :=
  .object [("key", r.key.value), ("metric", .string r.metric.name),
    ("summary", .ofOption Summary.value r.summary)]

/-- The row of statistics with a saved form. -/
def ofValue? (v : Value) : Option SummaryRow := do
  match ← v.parts? ["key", "metric", "summary"] with
  | [key, metric, summary] =>
    pure {
      key := ← must GroupKey.ofValue? key
      metric := ← must (Value.named? Metric.ofName?) metric
      summary := ← may Summary.ofValue? summary }
  | _ => none

end SummaryRow

/-! ### Places -/

namespace Syntax

/-- The saved form of a place: its row and its column. -/
def Place.value (p : Place) : Value := .array [.ofNat p.row, .ofNat p.column]

/-- The place with a saved form. -/
def Place.ofValue? (v : Value) : Option Place := do
  match ← v.items? with
  | [row, column] => pure ⟨← row.nat?, ← column.nat?⟩
  | _ => none

/-- The saved form of an error site. -/
def ErrorSite.value (e : ErrorSite) : Value :=
  .object [("kind", .string e.kind), ("start", e.start.value), ("end", e.stop.value)]

/-- The error site with a saved form. -/
def ErrorSite.ofValue? (v : Value) : Option ErrorSite := do
  match ← v.parts? ["kind", "start", "end"] with
  | [kind, start, stop] =>
    pure ⟨← must Value.text? kind, ← must Place.ofValue? start, ← must Place.ofValue? stop⟩
  | _ => none

end Syntax

namespace Analysis

open Syntax (ErrorSite)

/-! ### Scores -/

namespace MetricValues

/-- The saved form of values under metrics. -/
def value {α : Type} (write : α → Value) (values : MetricValues α) : Value :=
  .object (values.map fun (metric, x) => (metric.name, write x))

/-- The values under metrics with a saved form. -/
def ofValue? {α : Type} (read : Value → Option α) (v : Value) : Option (MetricValues α) := do
  (← v.fields?).foldlM (fun values (name, x) => do
    pure (MetricValues.put values (← Metric.ofName? name) (← read x))) []

end MetricValues

/-- The score with a saved form. -/
def scoreOf? (v : Value) : Option Scoring.Score := do
  let n ← v.nat?
  if n ≤ Scoring.limit then some (.ofNat n) else none

namespace MethodRow

/-- The saved form of a method's scores. -/
def value (m : MethodRow) : Value :=
  .object [("name", .string m.name), ("start_line", .ofNat m.startLine),
    ("end_line", .ofNat m.endLine),
    ("values", MetricValues.value (fun score => .ofNat score.val) m.values)]

/-- The method's scores with a saved form. -/
def ofValue? (v : Value) : Option MethodRow := do
  match ← v.parts? ["name", "start_line", "end_line", "values"] with
  | [name, startLine, endLine, values] =>
    pure {
      name := ← must Value.text? name
      startLine := ← must Value.nat? startLine
      endLine := ← must Value.nat? endLine
      values := ← must (MetricValues.ofValue? scoreOf?) values }
  | _ => none

end MethodRow

namespace FileScores

/-- The saved form of a file's scores. -/
def value (f : FileScores) : Value :=
  .object [("key", f.key.value), ("file", .string f.file), ("syntax_ok", .bool f.syntaxOk),
    ("loc", .ofNat f.loc), ("method_count", .ofNat f.methodCount),
    ("comment_density", .ofFloat? f.commentDensity),
    ("values", MetricValues.value .ofFloat f.values), ("methods", .ofList MethodRow.value f.methods)]

/-- The file's scores with a saved form. -/
def ofValue? (v : Value) : Option FileScores := do
  match ← v.parts? ["key", "file", "syntax_ok", "loc", "method_count", "comment_density", "values",
    "methods"] with
  | [key, file, syntaxOk, loc, methodCount, commentDensity, values, methods] =>
    pure {
      key := ← must GroupKey.ofValue? key
      file := ← must Value.text? file
      syntaxOk := ← must Value.bool? syntaxOk
      loc := ← must Value.nat? loc
      methodCount := ← must Value.nat? methodCount
      commentDensity := ← may Value.real? commentDensity
      values := ← must (MetricValues.ofValue? Value.real?) values
      methods := ← must (Value.listOf? MethodRow.ofValue?) methods }
  | _ => none

end FileScores

namespace ScoreAnalysis

/-- The saved form of scores. -/
def value (a : ScoreAnalysis) : Value :=
  .object [("labels", .ofList .string a.labels),
    ("metrics", .ofList (fun m => .string (Metric.name m)) a.metrics),
    ("by_method", .bool a.byMethod), ("files", .ofList FileScores.value a.files),
    ("summary", .ofList SummaryRow.value a.summary), ("skipped_records", .ofNat a.skippedRecords)]

/-- The scores with a saved form. -/
def ofValue? (v : Value) : Option ScoreAnalysis := do
  match ← v.parts? ["labels", "metrics", "by_method", "files", "summary", "skipped_records"] with
  | [labels, metrics, byMethod, files, summary, skippedRecords] =>
    pure {
      labels := ← must Value.texts? labels
      metrics := ← must (Value.listOf? (Value.named? Metric.ofName?)) metrics
      byMethod := ← must Value.bool? byMethod
      files := ← must (Value.listOf? FileScores.ofValue?) files
      summary := ← must (Value.listOf? SummaryRow.ofValue?) summary
      skippedRecords := ← must Value.nat? skippedRecords }
  | _ => none

end ScoreAnalysis

/-! ### Imports -/

namespace ImportedReport

/-- The saved form of a report's values. -/
def value (r : ImportedReport) : Value :=
  .object [("key", r.key.value), ("report", .string r.report),
    ("values", MetricValues.value .ofFloat r.values)]

/-- The report's values with a saved form. -/
def ofValue? (v : Value) : Option ImportedReport := do
  match ← v.parts? ["key", "report", "values"] with
  | [key, report, values] =>
    pure {
      key := ← must GroupKey.ofValue? key
      report := ← must Value.text? report
      values := ← must (MetricValues.ofValue? Value.real?) values }
  | _ => none

end ImportedReport

namespace ImportAnalysis

/-- The saved form of an import. -/
def value (a : ImportAnalysis) : Value :=
  .object [("labels", .ofList .string a.labels), ("reports", .ofList ImportedReport.value a.reports),
    ("summary", .ofList SummaryRow.value a.summary), ("skipped_records", .ofNat a.skippedRecords)]

/-- The import with a saved form. -/
def ofValue? (v : Value) : Option ImportAnalysis := do
  match ← v.parts? ["labels", "reports", "summary", "skipped_records"] with
  | [labels, reports, summary, skippedRecords] =>
    pure {
      labels := ← must Value.texts? labels
      reports := ← must (Value.listOf? ImportedReport.ofValue?) reports
      summary := ← must (Value.listOf? SummaryRow.ofValue?) summary
      skippedRecords := ← must Value.nat? skippedRecords }
  | _ => none

end ImportAnalysis

/-! ### Syntax -/

namespace FileSyntax

/-- The saved form of a file's syntax. -/
def value (f : FileSyntax) : Value :=
  .object [("key", f.key.value), ("file", .string f.file), ("syntax_ok", .bool f.syntaxOk),
    ("methods", .ofNat f.methods), ("method_lines", .ofNat f.methodLines),
    ("errors", .ofList ErrorSite.value f.errors)]

/-- The file's syntax with a saved form. -/
def ofValue? (v : Value) : Option FileSyntax := do
  match ← v.parts? ["key", "file", "syntax_ok", "methods", "method_lines", "errors"] with
  | [key, file, syntaxOk, methods, methodLines, errors] =>
    pure {
      key := ← must GroupKey.ofValue? key
      file := ← must Value.text? file
      syntaxOk := ← must Value.bool? syntaxOk
      methods := ← must Value.nat? methods
      methodLines := ← must Value.nat? methodLines
      errors := ← must (Value.listOf? ErrorSite.ofValue?) errors }
  | _ => none

end FileSyntax

namespace GroupSyntax

/-- The saved form of a group's counts. -/
def value (g : GroupSyntax) : Value :=
  .object [("total", .ofNat g.total), ("correct", .ofNat g.correct)]

/-- The group's counts with a saved form. -/
def ofValue? (v : Value) : Option GroupSyntax := do
  match ← v.parts? ["total", "correct"] with
  | [total, correct] => pure ⟨← must Value.nat? total, ← must Value.nat? correct⟩
  | _ => none

end GroupSyntax

namespace SyntaxAnalysis

/-- The saved form of a group with its key. -/
def groupValue (entry : GroupKey × GroupSyntax) : Value :=
  .array [entry.1.value, entry.2.value]

/-- The group and the key with a saved form. -/
def groupOf? (v : Value) : Option (GroupKey × GroupSyntax) := do
  match ← v.items? with
  | [key, group] => pure (← GroupKey.ofValue? key, ← GroupSyntax.ofValue? group)
  | _ => none

/-- The saved form of the syntax of files. -/
def value (a : SyntaxAnalysis) : Value :=
  .object [("labels", .ofList .string a.labels), ("files", .ofList FileSyntax.value a.files),
    ("summary", .ofList groupValue a.summary), ("skipped_records", .ofNat a.skippedRecords)]

/-- The syntax of files with a saved form. -/
def ofValue? (v : Value) : Option SyntaxAnalysis := do
  match ← v.parts? ["labels", "files", "summary", "skipped_records"] with
  | [labels, files, summary, skippedRecords] =>
    pure {
      labels := ← must Value.texts? labels
      files := ← must (Value.listOf? FileSyntax.ofValue?) files
      summary := ← must (Value.listOf? groupOf?) summary
      skippedRecords := ← must Value.nat? skippedRecords }
  | _ => none

end SyntaxAnalysis

end Analysis

end SuiteMetrics
