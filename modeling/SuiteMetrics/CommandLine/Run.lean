import SuiteMetrics.Analysis.Import
import SuiteMetrics.Analysis.Soundness
import SuiteMetrics.CommandLine
import SuiteMetrics.Settings.Load

/-!
Carrying out a command line.

A request is carried out on a file tree: settings are loaded, inputs are selected and analysed, the
report is printed, and its tables are written if a directory is named. The report is printed before
any table is written, so it is not lost when writing fails.
-/

namespace SuiteMetrics.CommandLine

open Analysis
open Files (InputFile Selection World)
open Tool (Runner)

/-- What a run is given besides its arguments. -/
structure Surroundings where
  world : World
  /-- The variables of the environment. -/
  environment : List (String × String)
  /-- How programs are run. -/
  run : Runner

/-- What comes of a run. -/
structure Outcome where
  status : Nat
  printed : String
  /-- What went wrong. -/
  failure : Option Failure
  /-- The paths and texts of the files that were written. -/
  written : List (String × String)
  /-- The file tree afterwards. -/
  world : World

/-- The endings of source files. -/
def sourceEndings : List String := ["java"]

/-- The settings of a request. -/
def Request.settings (r : Request) (s : Surroundings) : Except Failure Settings :=
  match r.config with
  | some path => Settings.fromFile s.world s.environment path
  | none => Settings.forDirectory s.world s.environment r.path

/-- The source files of a request. -/
def Request.sources (r : Request) (s : Surroundings) (settings : Settings) :
    Except Failure (List InputFile) :=
  (Selection.ofRoot s.world r.path sourceEndings settings.exclude).map Selection.files

/-- The report files below a directory. -/
def reportsBelow (s : Surroundings) (settings : Settings) (directory : String) :
    Except Failure (List InputFile) :=
  (Selection.ofRoot s.world directory reportEndings settings.exclude).map Selection.files

/-- What an analysis of scores needs. -/
def Surroundings.conditions (s : Surroundings) (settings : Settings) : Conditions where
  settings := settings
  directory := Files.absoluteText s.world.present
  run := s.run

/-- The report of a request. -/
def Request.report (r : Request) (s : Surroundings) (settings : Settings) :
    Except Failure Report :=
  match r.command with
  | .score chosen byMethod =>
    (r.sources s settings).map fun files =>
      (ScoreAnalysis.ofFiles ⟨chosen, byMethod⟩ (s.conditions settings) files).report
  | .importing directory =>
    (reportsBelow s settings directory).map fun files =>
      (ImportAnalysis.ofFiles settings.labels files).report
  | .checking =>
    (r.sources s settings).map fun files =>
      (SyntaxAnalysis.ofFiles settings.labels files).report

/-- Writes texts to files, one after the other. -/
def writeAll (w : World) : List (String × String) → Except IoFault World
  | [] => .ok w
  | (path, text) :: rest =>
    match w.write path (Text.Utf8.encode text) with
    | .ok w => writeAll w rest
    | .error fault => .error fault

/-- The tables of a report as files in a directory. -/
def tablesIn (directory : String) (report : Report) : List (String × String) :=
  report.csvFiles.map fun (name, text) => (Files.within directory name, text)

/-- Writes the tables of a report to a directory, which is made if necessary. -/
def writeTables (w : World) (directory : String) (report : Report) : Except IoFault World :=
  match w.makeDirectories directory with
  | .ok w => writeAll w (tablesIn directory report)
  | .error fault => .error fault

/-- What comes of a failure before anything is printed. -/
def Outcome.ofFailure (w : World) (failure : Failure) : Outcome := ⟨1, "", some failure, [], w⟩

/-- What comes of a report in a format. -/
def Request.emit (r : Request) (w : World) (format : Render.Format) (report : Report) : Outcome :=
  let printed := format.render report.value
  match r.outputDir with
  | none => ⟨0, printed, none, [], w⟩
  | some directory =>
    match writeTables w directory report with
    | .ok w => ⟨0, printed, none, tablesIn directory report, w⟩
    | .error fault => ⟨1, printed, some (.io fault), [], w⟩

/-- Carries out a request. -/
def Request.run (r : Request) (s : Surroundings) : Outcome :=
  match r.settings s with
  | .error failure => .ofFailure s.world failure
  | .ok settings =>
    match r.report s settings with
    | .error failure => .ofFailure s.world failure
    | .ok report => r.emit s.world (r.reportFormat settings) report

/-- The name and the version of the program. -/
def versionText : String := "cxlens 0.3.1\n"

/-- Carries out a command line. -/
def run (s : Surroundings) (args : List String) : Outcome :=
  match Request.ofArguments args with
  | .ok request => request.run s
  | .error .version => ⟨Refusal.version.status, versionText, none, [], s.world⟩
  | .error why => ⟨why.status, "", none, [], s.world⟩

/-- The line in which a failure is told. -/
def failureLine (failure : Failure) : String := "Error: " ++ failure.message

end SuiteMetrics.CommandLine
