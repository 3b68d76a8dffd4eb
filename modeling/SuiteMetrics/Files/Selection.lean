import SuiteMetrics.Aggregate
import SuiteMetrics.Files.Ignore

/-!
The files that an analysis works on.

Files are searched for below a root. Those with one of some endings are taken, unless an exclude
pattern matches them; a pattern is tried on the path below the root and on the whole path. They are
listed in the order of their places, compared name by name. A file's group is told by the first
directories on its way from the root.
-/

namespace SuiteMetrics.Files

open Text.Utf8 (Bytes)

/-- A file to be analysed. -/
structure InputFile where
  /-- The whole path. -/
  path : String
  /-- The names below the root. -/
  below : List String
  /-- The bytes of the file, or why it cannot be read. -/
  content : Except IoFault Bytes

namespace InputFile

/-- The path below the root. -/
def relative (f : InputFile) : String := join f.below

/-- The group of a file: at most some number of the directories below the root. -/
def key (f : InputFile) (length : Nat) : GroupKey := ⟨f.below.dropLast.take length⟩

end InputFile

/-- The files found below a root. -/
structure Selection where
  root : List String
  files : List InputFile

namespace Selection

/-- The exclude patterns with some texts. -/
def readPatterns (patterns : List String) : Except Failure (List Glob) :=
  patterns.mapM fun text =>
    match Glob.ofText false text.toList with
    | .ok glob => .ok glob
    | .error fault => .error (.config (.badPattern text fault))

/-- Whether a pattern excludes a file. -/
def isExcluded (excludes : List Glob) (path relative : String) : Bool :=
  excludes.any fun glob =>
    glob.accepts (Text.Utf8.encode relative) || glob.accepts (Text.Utf8.encode path)

/-- Whether a file has one of some endings. -/
def hasEnding (endings : List String) (name : String) : Bool :=
  match extension? name with
  | some ending => endings.contains ending
  | none => false

mutual

/-- The places below a root of everything under an entry that is no directory. The place of the
entry itself is given, and the levels of rules above it. -/
def search (w : World) (root place : List String) (levels : List IgnoreLevel) :
    Entry → List (List String)
  | .directory entries =>
    searchAll w root place (IgnoreLevel.ofPlace w place :: levels) entries
  | .file _ => [place.drop root.length]
  | .link _ => [place.drop root.length]

/-- The same for the entries of a directory, without those that are left out. -/
def searchAll (w : World) (root place : List String) (levels : List IgnoreLevel) :
    List (String × Entry) → List (List String)
  | [] => []
  | (name, e) :: rest =>
    let here := place ++ [name]
    if isSkipped levels e.isDirectory here then searchAll w root place levels rest
    else search w root here levels e ++ searchAll w root place levels rest

end

/-- Places name by name in order. -/
def placeLe (a b : List String) : Bool := !(decide (b < a))

/-- The file at a place below a root, if it is to be taken. -/
def take? (w : World) (root : List String) (endings : List String) (excludes : List Glob)
    (below : List String) : Option InputFile :=
  let path := absoluteText (root ++ below)
  let name := (root ++ below).getLast?.getD ""
  if !w.isDirectory path && hasEnding endings name && !isExcluded excludes path (join below) then
    some ⟨path, below, w.read path⟩
  else none

/-- The files below a root that have one of some endings and match no exclude pattern. -/
def ofRoot (w : World) (root : String) (endings excludes : List String) :
    Except Failure Selection := do
  let (place, e) ← match w.resolve root with
    | .ok found => pure found
    | .error fault => throw (.io fault)
  let globs ← readPatterns excludes
  let found := search w place place (IgnoreLevel.above w place.dropLast) e
  pure ⟨place, (found.mergeSort placeLe).filterMap (take? w place endings globs)⟩

end Selection

end SuiteMetrics.Files
