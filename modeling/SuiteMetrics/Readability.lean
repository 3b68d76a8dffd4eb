import SuiteMetrics.Decimal.Reader
import SuiteMetrics.Files.Path
import SuiteMetrics.Text.Blank
import SuiteMetrics.Text.Line
import SuiteMetrics.Tool

/-!
Scores of a readability model.

The model is a program that is given the path of a file. It prints records, a file name and a score
with a tab between them, mixed with other lines. The first record of the file decides; a score that
is no finite number is no score.
-/

namespace SuiteMetrics.Readability

open Tool (Call Instrument Output Runner)

/-- How the model is run. -/
structure Settings where
  program : String
  /-- Arguments before the file. -/
  args : List String
  workingDir : Option String
  /-- The beginnings of lines that are no records. -/
  ignored : List String
  deriving DecidableEq, Repr

/-! ### Records -/

/-- The name at the end of a path, whose names slashes or backslashes part. -/
def baseName (path : List Char) : List Char :=
  Text.afterLast (fun c => c == '/' || c == '\\') (Text.trim path)

/-- Whether a line begins in one of some ways. -/
def isIgnored (ignored : List String) (line : List Char) : Bool :=
  ignored.any fun start => start.toList.isPrefixOf line

/-- The path and the score of a record, both as they are written. -/
def record? (ignored : List String) (line : List Char) : Option (List Char × List Char) :=
  let line := Text.trim line
  if isIgnored ignored line then none else Text.splitFirst '\t' line

/-- The records in what the model printed. -/
def records (ignored : List String) (printed : List Char) : List (List Char × List Char) :=
  (Text.lines printed).filterMap (record? ignored)

/-- A finite number from its text. -/
def finite? (text : List Char) : Option Float :=
  match Decimal.readFloat? (Text.trim text) with
  | some x => if x.isFinite then some x else none
  | none => none

/-- The score of a file, by its name, in what the model printed. -/
def scoreIn? (ignored : List String) (name : List Char) (printed : List Char) : Option Float :=
  match (records ignored printed).find? fun record => baseName record.1 = name with
  | some (_, score) => finite? score
  | none => none

/-! ### Running the model -/

/-- The call that scores the file at a path from the root. -/
def Settings.call (s : Settings) (file : String) : Call where
  program := s.program
  args := s.args ++ [file]
  workingDir := s.workingDir

/-- The path from the root and the name of a file whose path is taken from a directory, if the path
ends with a name. -/
def subject? (directory file : String) : Option (String × String) :=
  if file.isEmpty then none
  else
    let path := Files.absolute directory file
    (Files.fileName? path).map fun name => (path, name)

/-- The score of a file, by its name, in an answer of the model, which counts only if the model
ended well. -/
def Settings.scoreIn? (s : Settings) (name : String) (o : Output) : Option Float :=
  if o.success then Readability.scoreIn? s.ignored name.toList o.stdout.toList else none

/-- The score of a file as the model gives it. -/
def score? (directory : String) (s : Settings) (run : Runner) (file : String) : Option Float :=
  match subject? directory file with
  | none => none
  | some (path, name) =>
    match run (s.call path) with
    | .ok output => s.scoreIn? name output
    | .error _ => none

/-- The readability model as an instrument for files whose paths are taken from a directory. -/
def model (directory : String) (s : Settings) : Instrument where
  name := "readability"
  metrics := [.readability]
  call? file := (subject? directory file).map fun subject => s.call subject.1
  read file o :=
    match (subject? directory file).bind fun subject => s.scoreIn? subject.2 o with
    | some x => [⟨.readability, x⟩]
    | none => []

end SuiteMetrics.Readability
