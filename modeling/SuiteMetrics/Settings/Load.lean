import SuiteMetrics.Files.Tree
import SuiteMetrics.Settings
import SuiteMetrics.Settings.Toml
import SuiteMetrics.Settings.Variable

/-!
Loading settings.

Settings come from the defaults, from settings files and from variables of the environment, each
source laid over the ones before it, setting by setting. A user may name one settings file; without
that, two files are looked for in the directory that is analysed. Settings of a wrong type are an
error, settings that nobody knows are not.
-/

namespace SuiteMetrics.Settings

open Files (World)

/-! ### From items -/

/-- The items of a section in the order of its settings: of a table by their names, of a list in
sequence. None for what is no section. -/
def section? (names : List String) : Item → Option (List (Option Item))
  | .table entries => some (names.map fun name => entries.lookup name)
  | .list items => some ((List.range names.length).map fun i => items[i]?)
  | _ => none

/-- The setting under a name, or a default where nothing is said. -/
def read {α : Type} (reader : Item → Option α) (fallback : α) : Option Item → Option α
  | some item => reader item
  | none => some fallback

/-- A text that may be left out. -/
def optionalText? : Item → Option (Option String)
  | .nothing => some none
  | item => item.text?.map some

/-- The section of the rule checker. -/
def checkerOf? (item : Item) : Option Violations.CheckerSettings := do
  match ← section? ["program", "args", "rulesets"] item with
  | [program, args, rulesets] =>
    pure {
      program := ← read Item.text? defaultChecker.program program
      args := ← read Item.texts? defaultChecker.args args
      rulesets := ← read Item.texts? defaultChecker.rulesets rulesets }
  | _ => none

/-- The section of the readability model. -/
def readabilityOf? (item : Item) : Option Readability.Settings := do
  match ← section? ["program", "args", "working_dir", "ignore_prefixes"] item with
  | [program, args, workingDir, ignored] =>
    pure {
      program := ← read Item.text? defaultReadability.program program
      args := ← read Item.texts? defaultReadability.args args
      workingDir := ← read optionalText? defaultReadability.workingDir workingDir
      ignored := ← read Item.texts? defaultReadability.ignored ignored }
  | _ => none

/-- A section with one setting. -/
def single? {α : Type} (name : String) (reader : Item → Option α) (fallback : α) (item : Item) :
    Option α := do
  match ← section? [name] item with
  | [value] => read reader fallback value
  | _ => none

/-- The settings that an item says. -/
def ofItem? (item : Item) : Option Settings := do
  match ← section? ["exclude", "grouping", "engine", "pmd", "readability", "output"] item with
  | [exclude, grouping, engine, checker, readability, output] =>
    let traversal? (item : Item) := item.text?.bind Scoring.Traversal.ofName?
    let format? (item : Item) := item.text?.bind Render.Format.ofName?
    pure {
      exclude := ← read Item.texts? default.exclude exclude
      labels := ← read (single? "labels" Item.texts? default.labels) default.labels grouping
      traversal := ←
        read (single? "traversal" traversal? default.traversal) default.traversal engine
      checker := ← read checkerOf? default.checker checker
      readability := ← read readabilityOf? default.readability readability
      format := ← read (single? "format" format? default.format) default.format output }
  | _ => none

/-- The settings of sources laid over each other, the lowest first. A source that cannot be read is
absent. -/
def ofSources (sources : List (Option Item)) : Except Failure Settings :=
  match (sources.mapM id).bind fun items => ofItem? (Item.stack items) with
  | none => .error (.config .unreadable)
  | some settings => settings.validate

/-! ### From files -/

/-- What a file says, if it can be read. -/
def fileItem? (w : World) (path : String) : Option Item :=
  match w.readText path with
  | .ok text => Toml.item? text
  | .error _ => none

/-- Whether a path leads to a file. -/
def isFile (w : World) (path : String) : Bool :=
  match w.resolve path with
  | .ok (_, .file _) => true
  | _ => false

/-- The paths where a settings file is looked for: an absolute path itself, any other in the present
directory and then in those above it. -/
def candidates (w : World) (path : String) : List String :=
  if Files.isAbsolute path then [path]
  else
    ((List.range (w.present.length + 1)).map fun n =>
      Files.within (Files.absoluteText (w.present.take n)) path).reverse

/-- What a file says that may be missing. -/
def optionalFileItem? (w : World) (path : String) : Option Item :=
  match (candidates w path).find? (isFile w) with
  | some found => fileItem? w found
  | none => some (.table [])

/-- The settings with a file that the user names. -/
def fromFile (w : World) (environment : List (String × String)) (path : String) :
    Except Failure Settings :=
  if w.pathExists path then ofSources [fileItem? w path, some (Variable.item environment)]
  else .error (.config (.missingFile path))

/-- The names of the settings files of a directory, the one that is laid over the other last. -/
def fileNames : List String := ["cxlens.toml", ".cxlens/cxlens.toml"]

/-- The settings for a directory. -/
def forDirectory (w : World) (environment : List (String × String)) (directory : String) :
    Except Failure Settings :=
  ofSources ((fileNames.map fun name => optionalFileItem? w (Files.within directory name)) ++
    [some (Variable.item environment)])

end SuiteMetrics.Settings
