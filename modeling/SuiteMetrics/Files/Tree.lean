import SuiteMetrics.Failure
import SuiteMetrics.Files.Path
import SuiteMetrics.Text.Utf8

/-!
File trees.

A file tree is a value: directories with named entries, files with bytes, and links. A path is
looked up part by part from a directory. A link on the way is followed by looking up its target
and then the rest of the path; at most forty links are followed. What is found is named by its
place, the names that lead to it from the root without links.
-/

namespace SuiteMetrics.Files

open Text.Utf8 (Bytes)

/-- What stands under a name. -/
inductive Entry where
  | file (content : Bytes)
  | directory (entries : List (String × Entry))
  | link (target : String)
  deriving Inhabited

namespace Entry

/-- Whether an entry is a directory itself. -/
def isDirectory : Entry → Bool
  | .directory _ => true
  | _ => false

/-- The entry under a name of a directory. -/
def child? (name : String) : Entry → Option Entry
  | .directory entries => entries.lookup name
  | _ => none

/-- The entry at a place below an entry. -/
def at? : List String → Entry → Option Entry
  | [], e => some e
  | name :: rest, e => (e.child? name).bind (at? rest)

/-- The entries of a directory. -/
def children : Entry → List (String × Entry)
  | .directory entries => entries
  | _ => []

/-- Entries with one put under a name, in place of one that is there. -/
def put (name : String) (e : Entry) : List (String × Entry) → List (String × Entry)
  | [] => [(name, e)]
  | (n, old) :: rest => if n = name then (n, e) :: rest else (n, old) :: put name e rest

/-- A tree with an entry put at a place. Directories on the way are made where there are none. -/
def insert (e : Entry) : List String → Entry → Entry
  | [], _ => e
  | name :: rest, tree =>
    let below := (tree.child? name).getD (.directory [])
    .directory (put name (insert e rest below) tree.children)

end Entry

/-- The number of links that are followed in one look-up. -/
def linkLimit : Nat := 40

/-- What a look-up finds. -/
inductive Found where
  /-- An entry that is no link, and its place. -/
  | entry (place : List String) (e : Entry)
  /-- The last name is not there, in a directory that is. -/
  | missing (parent : List String) (name : String)

/-- The parts still to be looked up after a link: those of its target, then the others. A slash at
the end asks for a directory, just as a last part `.` does. -/
def stepsOf (path : String) : List String :=
  steps path ++ if endsWithSlash path then ["."] else []

/-- Looks up parts from a place in a tree. -/
def lookUp (tree : Entry) : Nat → List String → List String → Except IoFault Found
  | _, place, [] =>
    match tree.at? place with
    | some e => .ok (.entry place e)
    | none => .error .notFound
  | links, place, name :: rest =>
    match tree.at? place with
    | some (.directory entries) =>
      if name = "." then lookUp tree links place rest
      else if name = ".." then lookUp tree links place.dropLast rest
      else
        match entries.lookup name with
        | none =>
          if rest.all (· == ".") then .ok (.missing place name) else .error .notFound
        | some (.link target) =>
          match links with
          | 0 => .error .linkLoop
          | links + 1 =>
            let start := if isAbsolute target then [] else place
            lookUp tree links start (stepsOf target ++ rest)
        | some _ => lookUp tree links (place ++ [name]) rest
    | some _ => .error .notDirectory
    | none => .error .notFound
termination_by links _ parts => (links, parts.length)

/-- A file tree and the directory from which relative paths are taken. -/
structure World where
  tree : Entry
  /-- The place of the present directory. -/
  present : List String

namespace World

/-- Looks up a path. -/
def find (w : World) (path : String) : Except IoFault Found :=
  if path.isEmpty then .error .notFound
  else lookUp w.tree linkLimit (if isAbsolute path then [] else w.present) (stepsOf path)

/-- The entry that a path leads to, and its place. -/
def resolve (w : World) (path : String) : Except IoFault (List String × Entry) :=
  match w.find path with
  | .ok (.entry place e) => .ok (place, e)
  | .ok (.missing _ _) => .error .notFound
  | .error fault => .error fault

/-- Whether a path leads to anything. -/
def pathExists (w : World) (path : String) : Bool := (w.resolve path).isOk

/-- Whether a path leads to a directory. -/
def isDirectory (w : World) (path : String) : Bool :=
  match w.resolve path with
  | .ok (_, e) => e.isDirectory
  | .error _ => false

/-- The bytes of the file that a path leads to. -/
def read (w : World) (path : String) : Except IoFault Bytes :=
  match w.resolve path with
  | .ok (_, .file content) => .ok content
  | .ok (_, .directory _) => .error .isDirectory
  | .ok (_, .link _) => .error .linkLoop
  | .error fault => .error fault

/-- The text of the file that a path leads to. -/
def readText (w : World) (path : String) : Except IoFault String :=
  match w.read path with
  | .ok bytes =>
    match Text.Utf8.decode? bytes with
    | some text => .ok text
    | none => .error .notUtf8
  | .error fault => .error fault

/-- The world with an entry put at a place. -/
def insert (w : World) (place : List String) (e : Entry) : World :=
  { w with tree := Entry.insert e place w.tree }

/-- A directory is made; everything above it must be there. -/
def makeDirectory (w : World) (path : String) : Except IoFault World :=
  let parts := steps path
  match parts.getLast? with
  | none => .error .exists
  | some name =>
    let start := if isAbsolute path then [] else w.present
    match lookUp w.tree linkLimit start (parts.dropLast ++ ["."]) with
    | .error fault => .error fault
    | .ok (.missing _ _) => .error .notFound
    | .ok (.entry place e) =>
      if name = "." || name = ".." || (e.child? name).isSome then .error .exists
      else .ok (w.insert (place ++ [name]) (.directory []))

/-- The paths that a path goes through, itself first and the uppermost last. -/
def ladder (path : String) : List String :=
  let front := if isAbsolute path then "/" else ""
  let parts := steps path
  ((List.range parts.length).map fun i => front ++ join (parts.take (i + 1))).reverse

/-- A directory is made that may be there already. -/
def ensureDirectory (w : World) (path : String) : Except IoFault World :=
  match w.makeDirectory path with
  | .ok w => .ok w
  | .error fault => if w.isDirectory path then .ok w else .error fault

/-- The first of some directories is made. The others lie above it, each above the one before it,
and are made only where that is necessary. -/
def ensureAll (w : World) : List String → Except IoFault World
  | [] => .ok w
  | path :: above =>
    match w.makeDirectory path with
    | .error .notFound =>
      match ensureAll w above with
      | .ok w => w.ensureDirectory path
      | .error fault => .error fault
    | _ => w.ensureDirectory path

/-- A directory is made, with all directories above it that are not there. -/
def makeDirectories (w : World) (path : String) : Except IoFault World := w.ensureAll (ladder path)

/-- A file is written, in place of one that is there. -/
def write (w : World) (path : String) (content : Bytes) : Except IoFault World :=
  match w.find path with
  | .ok (.entry _ (.directory _)) => .error .isDirectory
  | .ok (.entry place _) => .ok (w.insert place (.file content))
  | .ok (.missing parent name) =>
    if endsWithSlash path then .error .isDirectory
    else .ok (w.insert (parent ++ [name]) (.file content))
  | .error fault => .error fault

end World

end SuiteMetrics.Files
