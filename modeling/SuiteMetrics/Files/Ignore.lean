import SuiteMetrics.Files.Glob
import SuiteMetrics.Files.Tree
import SuiteMetrics.Text.Blank
import SuiteMetrics.Text.Line

/-!
Rules that leave files out of a search.

A directory may hold files with such rules, one a line: `.ignore`, and inside a repository also
`.gitignore` and the repository's own list of exclusions. A rule speaks of everything below its
directory; a rule that begins with an exclamation mark keeps what it matches. Of the rules in one
file the last that matches decides, and of the files of one kind the one nearest to what is judged.
The kinds come in the order above. A directory is inside a repository when it or one above it holds
`.git`, and the rules of the two latter kinds reach no further up than the nearest such directory.
-/

namespace SuiteMetrics.Files

open Text.Utf8 (Bytes)

/-- What rules say of a file or directory. -/
inductive Verdict where
  | skip
  | keep
  deriving DecidableEq, Repr

/-! ### Rules -/

/-- A rule. -/
structure IgnoreRule where
  glob : Glob
  verdict : Verdict
  /-- Whether it speaks of directories alone. -/
  directoriesOnly : Bool

namespace IgnoreRule

/-- The text of a pattern that matches a name wherever it stands: one without a slash that does not
say so itself. -/
def anywhere (pattern : List Char) : List Char :=
  if ['*', '*', '/'].isPrefixOf pattern || pattern = ['*', '*'] then pattern
  else '*' :: '*' :: '/' :: pattern

/-- The text of a pattern that matches what is below a directory and not the directory itself. -/
def strictlyBelow (pattern : List Char) : List Char :=
  if ['/', '*', '*'].isSuffixOf pattern then pattern ++ ['/', '*'] else pattern

/-- A pattern without a slash at its end, and whether it had one. -/
def dropSlash (pattern : List Char) : List Char × Bool :=
  match pattern.reverse with
  | '/' :: '\\' :: front => (front.reverse, true)
  | '/' :: front => (front.reverse, true)
  | _ => (pattern, false)

/-- The rule of a pattern, which starts at the rules' directory if it is anchored. -/
def ofPattern? (verdict : Verdict) (anchored : Bool) (pattern : List Char) : Option IgnoreRule :=
  let (pattern, directoriesOnly) := dropSlash pattern
  let placed := if anchored || pattern.contains '/' then pattern else anywhere pattern
  match Glob.ofText true (strictlyBelow placed) with
  | .ok glob => some ⟨glob, verdict, directoriesOnly⟩
  | .error _ => none

/-- A pattern without the slash that anchors it. -/
def unanchored (verdict : Verdict) : List Char → Option IgnoreRule
  | '/' :: pattern => ofPattern? verdict true pattern
  | pattern => ofPattern? verdict false pattern

/-- The rule of a line. Blanks at its end do not count, unless the last one is escaped; a line that
is blank, a comment or no pattern is no rule. -/
def ofLine? (line : List Char) : Option IgnoreRule :=
  let text := if ['\\', ' '].isSuffixOf line then line else Text.trimEnd line
  match text with
  | [] => none
  | '#' :: _ => none
  | '\\' :: '!' :: pattern => ofPattern? .skip false ('!' :: pattern)
  | '\\' :: '#' :: pattern => ofPattern? .skip false ('#' :: pattern)
  | '!' :: pattern => unanchored .keep pattern
  | pattern => unanchored .skip pattern

/-- What a rule says of a path below its directory. -/
def verdict? (rule : IgnoreRule) (isDirectory : Bool) (path : Bytes) : Option Verdict :=
  if (isDirectory || !rule.directoriesOnly) && rule.glob.accepts path then some rule.verdict
  else none

/-- The rules in a text. -/
def ofText (s : String) : List IgnoreRule :=
  let s := match s.toList with
    | '\ufeff' :: r => r.dropWhile (· == '\ufeff')
    | s => s
  (Text.lines s).filterMap ofLine?

end IgnoreRule

/-- The bytes up to the end of the last line before one that is no text. -/
def readableLines (bytes : Bytes) : String :=
  String.ofList (go [] [] (Text.Utf8.scalars bytes))
where
  /-- The scalars so far, and those of the present line, both backwards. -/
  go (done line : List Char) : List (Option Char) → List Char
    | [] => (line ++ done).reverse
    | none :: _ => done.reverse
    | some c :: rest => if c = '\n' then go (c :: line ++ done) [] rest else go done (c :: line) rest

/-! ### Directories with rules -/

/-- The rules of one directory. -/
structure IgnoreLevel where
  place : List String
  own : List IgnoreRule
  versioned : List IgnoreRule
  excluded : List IgnoreRule
  /-- Whether a repository starts here. -/
  isRepository : Bool

namespace IgnoreLevel

/-- The rules in a file, none if it cannot be read. -/
def rulesIn (w : World) (place : List String) : List IgnoreRule :=
  match w.read (absoluteText place) with
  | .ok bytes => IgnoreRule.ofText (readableLines bytes)
  | .error _ => []

/-- The rules of the directory at a place. -/
def ofPlace (w : World) (place : List String) : IgnoreLevel where
  place := place
  own := rulesIn w (place ++ [".ignore"])
  versioned := rulesIn w (place ++ [".gitignore"])
  excluded := rulesIn w (place ++ [".git", "info", "exclude"])
  isRepository := w.pathExists (absoluteText (place ++ [".git"]))

/-- The levels of the directories from a place up to the root, the nearest first. -/
def above (w : World) (place : List String) : List IgnoreLevel :=
  ((List.range (place.length + 1)).map fun n => ofPlace w (place.take n)).reverse

/-- What some rules of a level say of a place below it. -/
def judge (level : IgnoreLevel) (rules : List IgnoreRule) (isDirectory : Bool)
    (place : List String) : Option Verdict :=
  let path := Text.Utf8.encode (join (place.drop level.place.length))
  rules.reverse.findSome? fun rule => rule.verdict? isDirectory path

end IgnoreLevel

/-- The levels up to the nearest one where a repository starts, none if none does. -/
def repositoryLevels (levels : List IgnoreLevel) : List IgnoreLevel :=
  match levels.span fun level => !level.isRepository with
  | (_, []) => []
  | (inner, root :: _) => inner ++ [root]

/-- What the levels above a place say of it, the nearest level given first. -/
def verdict? (levels : List IgnoreLevel) (isDirectory : Bool) (place : List String) :
    Option Verdict :=
  let first (levels : List IgnoreLevel) (rules : IgnoreLevel → List IgnoreRule) : Option Verdict :=
    levels.findSome? fun level => level.judge (rules level) isDirectory place
  let versioned := repositoryLevels levels
  (first levels IgnoreLevel.own).or
    ((first versioned IgnoreLevel.versioned).or (first versioned IgnoreLevel.excluded))

/-- Whether a search leaves out a place: rules say so, or its name begins with a point and no rule
keeps it. -/
def isSkipped (levels : List IgnoreLevel) (isDirectory : Bool) (place : List String) : Bool :=
  match verdict? levels isDirectory place with
  | some verdict => verdict = .skip
  | none => ((place.getLast?.getD "").toList.head? == some '.')

end SuiteMetrics.Files
