import SuiteMetrics.Analysis.Gather
import SuiteMetrics.Analysis.Provider
import SuiteMetrics.Maintainability
import SuiteMetrics.Report
import SuiteMetrics.Settings

/-!
Scoring the sources of a selection.

Every source is parsed and scored under the chosen policies, measured by the chosen instruments, and
its values are collected by group. Sources that cannot be read or that the provider of trees refuses
are passed over.
-/

namespace SuiteMetrics.Analysis

open Files (InputFile)
open Json (Value Fields)
open Scoring (MethodScore PolicyKind Score Traversal)
open Syntax (NodeKind Tree)
open Tool (Instrument Runner)

/-! ### Sources of metrics -/

/-- Where metrics come from. -/
inductive MetricSource where
  | cognitive
  | testAware
  | cyclomatic
  | checker
  | readability
  deriving DecidableEq, Repr

namespace MetricSource

/-- The sources in the order in which they are offered. -/
def all : List MetricSource := [.cognitive, .testAware, .cyclomatic, .checker, .readability]

/-- The written name of a source. -/
def name : MetricSource → String
  | .cognitive => "cognitive"
  | .testAware => "test-aware"
  | .cyclomatic => "cyclomatic"
  | .checker => "pmd"
  | .readability => "readability"

/-- The source with a written name. -/
def ofName? (s : String) : Option MetricSource := all.find? fun source => source.name == s

/-- The sources that are used when none is chosen. -/
def default : List MetricSource := [.cognitive, .testAware, .cyclomatic]

/-- The policy under which a source scores, unless it is a program. -/
def policyKind? : MetricSource → Option PolicyKind
  | .cognitive => some .structural
  | .testAware => some .testAware
  | .cyclomatic => some .cyclomatic
  | .checker => none
  | .readability => none

/-- The metrics that a source gives. -/
def metrics : MetricSource → List Metric
  | .cognitive => [.cognitive]
  | .testAware => [.testAware]
  | .cyclomatic => [.cyclomatic, .maintainability]
  | .checker => [.pmdCognitive, .pmdCyclomatic]
  | .readability => [.readability]

end MetricSource

/-- What is to be scored. -/
structure ScoreRequest where
  /-- The chosen sources; one that is chosen again changes nothing. -/
  sources : List MetricSource
  /-- Whether methods are listed and not only files. -/
  byMethod : Bool

namespace ScoreRequest

/-- The chosen sources without repetitions. -/
def chosen (r : ScoreRequest) : List MetricSource := r.sources.eraseDups

/-- The metrics of a request in the order of its sources. -/
def metrics (r : ScoreRequest) : List Metric := r.chosen.flatMap MetricSource.metrics

/-- The policies of a request. -/
def policies (r : ScoreRequest) : List PolicyKind := r.chosen.filterMap MetricSource.policyKind?

/-- The instruments of a request, for files whose paths are taken from a directory. -/
def instruments (r : ScoreRequest) (directory : String) (settings : Settings) : List Instrument :=
  (if r.chosen.contains .checker then [Violations.checker settings.checker] else []) ++
    if r.chosen.contains .readability then [Readability.model directory settings.readability]
    else []

end ScoreRequest

/-! ### One file -/

/-- What rows of methods are ordered by. -/
structure MethodPlace where
  startLine : Nat
  name : String
  deriving DecidableEq, Repr

/-- Methods are ordered by their first lines, and by name where these are equal. -/
instance : LT MethodPlace :=
  ⟨fun a b => a.startLine < b.startLine ∨ (a.startLine = b.startLine ∧ a.name < b.name)⟩

instance (a b : MethodPlace) : Decidable (a < b) :=
  inferInstanceAs
    (Decidable (a.startLine < b.startLine ∨ (a.startLine = b.startLine ∧ a.name < b.name)))

/-- The scores of a method under several policies. -/
structure MethodRow where
  name : String
  startLine : Nat
  endLine : Nat
  values : MetricValues Score

/-- The rows of methods in ascending order of their places. -/
abbrev MethodRows := List (MethodPlace × MethodRow)

/-- The rows with a method's score under one more metric. -/
def MethodRows.put (rows : MethodRows) (metric : Metric) (m : MethodScore) : MethodRows :=
  Assoc.update ⟨m.startLine, m.name⟩ (fun row =>
    let row := row.getD ⟨m.name, m.startLine, m.endLine, []⟩
    { row with values := MetricValues.put row.values metric m.score }) rows

/-- The values and rows of a file while it is scored. -/
structure Scores where
  values : MetricValues Float
  methods : MethodRows

namespace Scores

/-- A score as a metric's value. -/
def toValue (score : Score) : Float := Float.ofNat score.val

/-- The maintainability index of a tree with a cyclomatic score. -/
def indexOf? (t : Tree) (score : Score) : Option Float :=
  maintainability? t.linesOfCode t.commentLines (toValue score)

/-- The scores of a tree with those of one more policy. -/
def addPolicy (traversal : Traversal) (byMethod : Bool) (t : Tree) (s : Scores)
    (kind : PolicyKind) : Scores :=
  let score := Scoring.scoreTree traversal kind.policy t
  let values := MetricValues.put s.values kind.metric (toValue score)
  let values :=
    match kind, indexOf? t score with
    | .cyclomatic, some index => MetricValues.put values .maintainability index
    | _, _ => values
  let methods :=
    if byMethod then
      (Scoring.methodScores traversal kind.policy t).foldl (fun rows m =>
        MethodRows.put rows kind.metric m) s.methods
    else s.methods
  ⟨values, methods⟩

/-- The scores of a file with what one more instrument measures. A value of a metric that the
instrument does not give is left out. -/
def addInstrument (run : Runner) (path : String) (s : Scores) (i : Instrument) : Scores :=
  { s with
    values := ((i.measure run path).filter fun m => i.metrics.contains m.metric).foldl
      (fun values m => MetricValues.put values m.metric m.value) s.values }

end Scores

/-- The scores of a file. -/
structure FileScores extends Entry where
  /-- The path below the root. -/
  file : String
  syntaxOk : Bool
  loc : Nat
  /-- The number of methods, constructors not counted. -/
  methodCount : Nat
  commentDensity : Option Float
  methods : List MethodRow

/-- What an analysis needs besides its files. -/
structure Conditions where
  settings : Settings
  /-- The directory from which relative paths are taken. -/
  directory : String
  /-- How programs are run. -/
  run : Runner

/-- The number of method declarations in a tree. -/
def countMethods (t : Tree) : Nat := t.root.descendants.countP fun n => n.kind == .method

/-- The scores of a file with a parsed content. -/
def FileScores.ofTree (request : ScoreRequest) (conditions : Conditions) (f : InputFile)
    (t : Tree) : FileScores :=
  let scored := request.policies.foldl
    (Scores.addPolicy conditions.settings.traversal request.byMethod t) ⟨[], []⟩
  let measured := (request.instruments conditions.directory conditions.settings).foldl
    (Scores.addInstrument conditions.run f.path) scored
  { key := f.key conditions.settings.keyLength
    file := f.relative
    syntaxOk := !t.hasError
    loc := t.linesOfCode
    methodCount := countMethods t
    commentDensity := commentDensity? t.linesOfCode t.commentLines
    values := measured.values
    methods := measured.methods.map Prod.snd }

/-- The scores of a file, if it has a tree. -/
def FileScores.ofFile? (p : Provider) (request : ScoreRequest) (conditions : Conditions)
    (f : InputFile) : Option FileScores :=
  (p.treeOf? f).map (FileScores.ofTree request conditions f)

/-! ### All files -/

/-- How the scores of a request are gathered from the trees of a provider. -/
def ScoreRequest.gathering (request : ScoreRequest) (p : Provider) (conditions : Conditions) :
    Gathering FileScores where
  keyLength := conditions.settings.keyLength
  metrics := request.metrics
  row? := FileScores.ofFile? p request conditions
  entry := FileScores.toEntry

/-- The result of scoring. -/
structure ScoreAnalysis where
  labels : List String
  /-- The metrics asked for. -/
  metrics : List Metric
  byMethod : Bool
  /-- The scores of the files in the order of their paths. -/
  files : List FileScores
  summary : List SummaryRow
  /-- The number of values that belong to no group. -/
  skippedRecords : Nat

namespace ScoreAnalysis

/-- The name of the analysis. -/
def name : String := "score"

/-- What the analysis does, in a line. -/
def description : String :=
  "Score Java files with cognitive, test-aware and cyclomatic policies and aggregate per group"

/-- The result of finished work. -/
def ofGathered (request : ScoreRequest) (conditions : Conditions) (p : Gathered FileScores) :
    ScoreAnalysis where
  labels := conditions.settings.labels
  metrics := request.metrics
  byMethod := request.byMethod
  files := p.rows.mergeSort fun a b => !(decide (b.file < a.file))
  summary := p.aggregator.summaries
  skippedRecords := p.aggregator.skipped

/-- Scores files, whose trees the parser of Java makes if no other provider is named. -/
def ofFiles (request : ScoreRequest) (conditions : Conditions) (files : List InputFile)
    (p : Provider := .java) : ScoreAnalysis :=
  ofGathered request conditions ((request.gathering p conditions).ofFiles files)

/-! ### The report -/

/-- The row of a file. -/
def fileRow (a : ScoreAnalysis) (f : FileScores) : Fields :=
  (Report.keyColumns a.labels f.key.labels).insertAll
    ([("file", .string f.file), ("loc", .ofNat f.loc), ("methods", .ofNat f.methodCount),
        ("comment_density", .ofFloat? f.commentDensity)] ++
      a.metrics.map (fun m => (m.name, .ofFloat? (Assoc.get? m f.values))) ++
      [("syntax_ok", .bool f.syntaxOk)])

/-- The metrics of the policies that were asked for. -/
def policyMetrics (a : ScoreAnalysis) : List Metric :=
  (PolicyKind.all.map PolicyKind.metric).filter a.metrics.contains

/-- A score as a value, null if there is none. -/
def scoreValue : Option Score → Value
  | some score => .ofNat score.val
  | none => .null

/-- The row of a method. -/
def methodRow (a : ScoreAnalysis) (f : FileScores) (m : MethodRow) : Fields :=
  (Report.keyColumns a.labels f.key.labels).insertAll
    ([("file", .string f.file), ("method", .string m.name), ("line", .ofNat m.startLine)] ++
      a.policyMetrics.map (fun metric => (metric.name, scoreValue (Assoc.get? metric m.values))) ++
      [("syntax_ok", .bool f.syntaxOk)])

/-- The rows of the detailed table. -/
def detailedRows (a : ScoreAnalysis) : List Fields :=
  if a.byMethod then a.files.flatMap fun f => f.methods.map (a.methodRow f)
  else a.files.map a.fileRow

/-- The report of a result. -/
def report (a : ScoreAnalysis) : Report where
  command := name
  filesAnalyzed := a.files.length
  skippedRecords := a.skippedRecords
  summary := Report.summaryRows a.labels a.summary
  detailed := a.detailedRows

end ScoreAnalysis

end SuiteMetrics.Analysis
