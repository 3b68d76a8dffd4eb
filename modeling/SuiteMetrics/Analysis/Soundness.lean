import SuiteMetrics.Analysis.Score

/-!
Checking which sources parse.

Every source is parsed; its methods, their lines and its syntax errors are listed, and for every
group it is counted how many of its sources parse without an error. Sources that cannot be read or
that the provider of trees refuses are passed over, and sources that belong to no group are counted
apart.
-/

namespace SuiteMetrics.Analysis

open Files (InputFile)
open Json (Value Fields)
open Syntax (ErrorSite Tree)

/-! ### One file -/

/-- The syntax of a file. -/
structure FileSyntax where
  key : GroupKey
  /-- The path below the root. -/
  file : String
  syntaxOk : Bool
  /-- The number of methods, constructors not counted. -/
  methods : Nat
  /-- The number of lines of these methods. -/
  methodLines : Nat
  errors : List ErrorSite

/-- The number of lines that the method declarations of a tree cover, each counted by itself. -/
def linesOfMethods (t : Tree) : Nat :=
  (t.root.descendants.filter fun n => n.kind == .method).foldl
    (fun lines n => lines + (n.endRow - n.startRow + 1)) 0

/-- The syntax of a parsed file. -/
def FileSyntax.ofTree (key : GroupKey) (file : String) (t : Tree) : FileSyntax where
  key := key
  file := file
  syntaxOk := !t.hasError
  methods := countMethods t
  methodLines := linesOfMethods t
  errors := t.errors

/-- The syntax of a file, if it has a tree. -/
def FileSyntax.ofFile? (p : Provider) (keyLength : Nat) (f : InputFile) : Option FileSyntax :=
  (p.treeOf? f).map (FileSyntax.ofTree (f.key keyLength) f.relative)

/-- A place as it is told, counted from one. -/
def placeText (p : Syntax.Place) : String := toString (p.row + 1) ++ ":" ++ toString (p.column + 1)

/-- A site as it is told: its kind, and where it starts and stops. -/
def siteText (site : ErrorSite) : String :=
  site.kind ++ "@" ++ placeText site.start ++ "-" ++ placeText site.stop

/-- All sites of a file as they are told. -/
def FileSyntax.errorLocations (f : FileSyntax) : String :=
  "; ".intercalate (f.errors.map siteText)

/-! ### Groups -/

/-- How many sources a group has, and how many of them parse. -/
structure GroupSyntax where
  total : Nat
  correct : Nat
  deriving DecidableEq, Repr

namespace GroupSyntax

/-- A group without sources. -/
def empty : GroupSyntax := ⟨0, 0⟩

/-- A group with one more source. -/
def record (g : GroupSyntax) (syntaxOk : Bool) : GroupSyntax :=
  ⟨g.total + 1, if syntaxOk then g.correct + 1 else g.correct⟩

/-- The counts of two parts of a group. -/
def merge (g other : GroupSyntax) : GroupSyntax :=
  ⟨g.total + other.total, g.correct + other.correct⟩

/-- How many sources do not parse. -/
def incorrect (g : GroupSyntax) : Nat := g.total - g.correct

/-- How many sources of a hundred parse, absent for a group without sources. -/
def successRate? (g : GroupSyntax) : Option Float :=
  if g.total = 0 then none
  else some (Float.ofNat g.correct * 100.0 / Float.ofNat g.total)

end GroupSyntax

/-- Groups in ascending order of their keys, and the number of sources that belong to none. -/
structure SyntaxGroups where
  groups : List (GroupKey × GroupSyntax)
  skipped : Nat

namespace SyntaxGroups

/-- No group. -/
def empty : SyntaxGroups := ⟨[], 0⟩

/-- The groups with one more source, which counts apart if its key has the wrong length. -/
def record (keyLength : Nat) (s : SyntaxGroups) (f : FileSyntax) : SyntaxGroups :=
  if f.key.length = keyLength then
    { s with
      groups := Assoc.update f.key (fun g => (g.getD .empty).record f.syntaxOk) s.groups }
  else { s with skipped := s.skipped + 1 }

/-- The groups of two parts. -/
def merge (s other : SyntaxGroups) : SyntaxGroups where
  groups := other.groups.foldl
    (fun groups (key, g) => Assoc.update key (fun own => (own.getD .empty).merge g) groups) s.groups
  skipped := s.skipped + other.skipped

end SyntaxGroups

/-! ### All files -/

/-- The syntax of some files and of their groups. -/
structure SyntaxPartial where
  files : List FileSyntax
  groups : SyntaxGroups

namespace SyntaxPartial

/-- The work on no file. -/
def empty : SyntaxPartial := ⟨[], .empty⟩

/-- The work with one more file. -/
def add (p : Provider) (keyLength : Nat) (work : SyntaxPartial) (f : InputFile) : SyntaxPartial :=
  match FileSyntax.ofFile? p keyLength f with
  | none => work
  | some checked => ⟨work.files ++ [checked], work.groups.record keyLength checked⟩

/-- The work on two lists of files. -/
def merge (p q : SyntaxPartial) : SyntaxPartial := ⟨p.files ++ q.files, p.groups.merge q.groups⟩

/-- The work on a list of files. -/
def ofFiles (p : Provider) (keyLength : Nat) (files : List InputFile) : SyntaxPartial :=
  files.foldl (add p keyLength) empty

end SyntaxPartial

/-- The result of checking. -/
structure SyntaxAnalysis where
  labels : List String
  /-- The files in the order of their paths. -/
  files : List FileSyntax
  summary : List (GroupKey × GroupSyntax)
  /-- The number of files that belong to no group. -/
  skippedRecords : Nat

namespace SyntaxAnalysis

/-- The name of the analysis. -/
def name : String := "syntax"

/-- What the analysis does, in a line. -/
def description : String := "Check that sources parse and count their methods"

/-- The result of finished work. -/
def ofPartial (labels : List String) (p : SyntaxPartial) : SyntaxAnalysis where
  labels := labels
  files := p.files.mergeSort fun a b => !(decide (b.file < a.file))
  summary := p.groups.groups
  skippedRecords := p.groups.skipped

/-- Checks files, whose trees the parser of Java makes if no other provider is named. -/
def ofFiles (labels : List String) (files : List InputFile) (p : Provider := .java) :
    SyntaxAnalysis :=
  ofPartial labels (.ofFiles p labels.length files)

/-- The row of a group. -/
def groupRow (labels : List String) (key : GroupKey) (g : GroupSyntax) : Fields :=
  (Report.keyColumns labels key.labels).insertAll
    [("total", .ofNat g.total), ("correct", .ofNat g.correct), ("incorrect", .ofNat g.incorrect),
      ("success_rate", .ofFloat? g.successRate?)]

/-- The row of a file. -/
def fileRow (labels : List String) (f : FileSyntax) : Fields :=
  (Report.keyColumns labels f.key.labels).insertAll
    [("file", .string f.file), ("syntax_ok", .bool f.syntaxOk), ("methods", .ofNat f.methods),
      ("method_lines", .ofNat f.methodLines), ("error_count", .ofNat f.errors.length),
      ("errors", .string f.errorLocations)]

/-- The report of a result. -/
def report (a : SyntaxAnalysis) : Report where
  command := name
  filesAnalyzed := a.files.length
  skippedRecords := a.skippedRecords
  summary := a.summary.map fun (key, g) => groupRow a.labels key g
  detailed := a.files.map (fileRow a.labels)

end SyntaxAnalysis

end SuiteMetrics.Analysis
