import SuiteMetrics.Text.Find

/-!
The texts of paths.

A path is a text whose parts stand between slashes. It is absolute when it starts with a slash.
Empty parts and the part `.` say nothing; the part `..` leads one level up and is kept, because
what it leads to depends on links.
-/

namespace SuiteMetrics.Files

/-- The parts of a path between its slashes, without empty ones. -/
def steps (path : String) : List String :=
  ((Text.splitAt '/' path.toList).filter fun part => !part.isEmpty).map String.ofList

/-- The parts of a path that say something. -/
def names (path : String) : List String := (steps path).filter fun part => part != "."

/-- Whether a path starts at the root. -/
def isAbsolute (path : String) : Bool := path.toList.head? == some '/'

/-- Whether a path ends with a slash. -/
def endsWithSlash (path : String) : Bool := path.toList.getLast? == some '/'

/-- Names with slashes between them. -/
def join (parts : List String) : String := "/".intercalate parts

/-- The absolute path with some names. -/
def absoluteText (parts : List String) : String := "/" ++ join parts

/-- A path inside a directory, which is the path itself if that is absolute. -/
def within (directory path : String) : String :=
  if isAbsolute path then path
  else if directory.isEmpty || endsWithSlash directory then directory ++ path
  else directory ++ "/" ++ path

/-- The name of the file that a path ends with, unless it ends with `..` or has no name. -/
def fileName? (path : String) : Option String :=
  match (names path).getLast? with
  | some ".." => none
  | last => last

/-- Whether a path starts with exactly two slashes, which are then kept. -/
def hasDoubleRoot (path : String) : Bool :=
  ['/', '/'].isPrefixOf path.toList && !(['/', '/', '/'].isPrefixOf path.toList)

/-- A path from the root, for a path taken from a directory. A slash at the end is kept. -/
def absolute (directory path : String) : String :=
  let parts := names path
  let front :=
    if hasDoubleRoot path then "//"
    else if isAbsolute path then "/"
    else if parts.isEmpty || endsWithSlash directory then directory
    else directory ++ "/"
  let text := front ++ join parts
  if endsWithSlash path && !endsWithSlash text then text ++ "/" else text

/-- The ending of a file name after its last point. A name that begins with its only point has
none. -/
def extension? (name : String) : Option String :=
  if name = ".." then none
  else
    match name.toList.reverse.span (· != '.') with
    | (_, []) => none
    | (_, [_]) => none
    | (ending, _) => some (String.ofList ending.reverse)

/-- The directories that a path goes through before its last part, without steps up. -/
def directories (path : String) : List String :=
  ((names path).dropLast).filter fun part => part != ".."

end SuiteMetrics.Files
