/-!
What can go wrong, and how it is told.

A failure says which part of the work failed and why. Every cause has a constructor of its own;
the wording is in `Failure.message` and the functions it uses, and nowhere else.
-/

namespace SuiteMetrics

/-- Why a file cannot be read or written. -/
inductive IoFault where
  | notFound
  /-- A part of the path that should be a directory is none. -/
  | notDirectory
  | isDirectory
  | exists
  /-- Links that lead to each other. -/
  | linkLoop
  /-- A text was wanted, and the bytes are not UTF-8. -/
  | notUtf8
  | other (text : String)
  deriving DecidableEq, Repr, Inhabited

/-- The wording of a fault. -/
def IoFault.message : IoFault → String
  | .notFound => "No such file or directory (os error 2)"
  | .notDirectory => "Not a directory (os error 20)"
  | .isDirectory => "Is a directory (os error 21)"
  | .exists => "File exists (os error 17)"
  | .linkLoop => "Too many levels of symbolic links (os error 40)"
  | .notUtf8 => "stream did not contain valid UTF-8"
  | .other text => text

/-- Why a file pattern cannot be read. -/
inductive GlobFault where
  | unclosedClass
  /-- A range of characters whose first one comes after its last one. -/
  | invalidRange (first last : Char)
  | unopenedAlternates
  | unclosedAlternates
  /-- An escape at the end of the pattern. -/
  | danglingEscape
  deriving DecidableEq, Repr

/-- The wording of a pattern's fault. -/
def GlobFault.message : GlobFault → String
  | .unclosedClass => "unclosed character class; missing ']'"
  | .invalidRange first last =>
    "invalid range; '" ++ first.toString ++ "' > '" ++ last.toString ++ "'"
  | .unopenedAlternates =>
    "unopened alternate group; missing '\x7b' (maybe escape '\x7d' with '[\x7d]'?)"
  | .unclosedAlternates =>
    "unclosed alternate group; missing '\x7d' (maybe escape '\x7b' with '[\x7b]'?)"
  | .danglingEscape => "dangling '\\'"

/-- Why a configuration cannot be used. -/
inductive ConfigFault where
  | missingFile (path : String)
  | noLabels
  | badPattern (pattern : String) (fault : GlobFault)
  /-- A source that cannot be read, or a value of the wrong type. -/
  | unreadable
  | other (text : String)
  deriving DecidableEq, Repr

/-- The wording of a configuration's fault, if it has one. -/
def ConfigFault.message? : ConfigFault → Option String
  | .missingFile path => some ("config file not found: " ++ path)
  | .noLabels => some "grouping.labels must name at least one key component"
  | .badPattern pattern fault =>
    some ("invalid exclude pattern `" ++ pattern ++ "`: error parsing glob '" ++ pattern ++ "': " ++
      fault.message)
  | .unreadable => none
  | .other text => some text

/-- What went wrong. -/
inductive Failure where
  | io (fault : IoFault)
  | fileNotFound (path : String)
  | parse (path reason : String)
  | provider (reason : String)
  | config (fault : ConfigFault)
  | serialization (reason : String)
  | invalidArgument (reason : String)
  | externalTool (tool reason : String)
  | report (reason : String)
  deriving DecidableEq, Repr

/-- The wording of a failure. -/
def Failure.message : Failure → String
  | .io fault => "I/O error: " ++ fault.message
  | .fileNotFound path => "File not found: " ++ path
  | .parse path reason => "Parse error in " ++ path ++ ": " ++ reason
  | .provider reason => "Syntax tree provider unavailable: " ++ reason
  | .config fault =>
    match fault.message? with
    | some text => "Configuration error: " ++ text
    | none => "Configuration error"
  | .serialization reason => "Serialization error: " ++ reason
  | .invalidArgument reason => "Invalid argument: " ++ reason
  | .externalTool tool reason => "External tool `" ++ tool ++ "` failed: " ++ reason
  | .report reason => "Malformed report: " ++ reason

end SuiteMetrics
