import SuiteMetrics.Aggregate
import SuiteMetrics.Files.Selection

/-!
Gathering the rows of files and their values by group.

An analysis makes a row of every file that it can use and passes over the others. The values of a
row are collected under the group of its file, which has a place for every metric that was asked
for. The work on a list of files can be cut anywhere and put together again (`Gathered.merge`): its
parts are lists of rows and aggregators, and rows are put into order only at the end.
-/

namespace SuiteMetrics.Analysis

open Files (InputFile)

/-- Values under metrics in ascending order. -/
abbrev MetricValues (α : Type) := List (Metric × α)

/-- Values with one put under a metric. -/
def MetricValues.put {α : Type} (values : MetricValues α) (metric : Metric) (value : α) :
    MetricValues α :=
  Assoc.update metric (fun _ => value) values

/-- What a row adds to the groups. -/
structure Entry where
  key : GroupKey
  /-- The metrics that have a value. -/
  values : MetricValues Float

/-- The rows of some files and their values by group. -/
structure Gathered (ρ : Type) where
  rows : List ρ
  aggregator : Aggregator

/-- The work on two lists of files. -/
def Gathered.merge {ρ : Type} (p q : Gathered ρ) : Gathered ρ :=
  ⟨p.rows ++ q.rows, p.aggregator.merge q.aggregator⟩

/-- How rows are made of files. -/
structure Gathering (ρ : Type) where
  /-- The number of labels of a group. -/
  keyLength : Nat
  /-- The metrics asked for. -/
  metrics : List Metric
  /-- The row of a file, if the file can be used. -/
  row? : InputFile → Option ρ
  entry : ρ → Entry

namespace Gathering

variable {ρ : Type}

/-- The work on no file. -/
def start (g : Gathering ρ) : Gathered ρ := ⟨[], .new g.keyLength⟩

/-- An aggregator with the values of an entry, whose group has a place for every metric asked
for. -/
def collect (g : Gathering ρ) (a : Aggregator) (e : Entry) : Aggregator :=
  let declared := g.metrics.foldl (fun a metric => a.declare e.key metric) a
  e.values.foldl (fun a (metric, value) => a.add ⟨e.key, metric, value⟩) declared

/-- The work with one more file. -/
def add (g : Gathering ρ) (p : Gathered ρ) (f : InputFile) : Gathered ρ :=
  match g.row? f with
  | none => p
  | some row => ⟨p.rows ++ [row], g.collect p.aggregator (g.entry row)⟩

/-- The work on a list of files. -/
def ofFiles (g : Gathering ρ) (files : List InputFile) : Gathered ρ := files.foldl g.add g.start

end Gathering

end SuiteMetrics.Analysis
