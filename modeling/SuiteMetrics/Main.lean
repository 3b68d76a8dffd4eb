import SuiteMetrics.CommandLine.Run
import SuiteMetrics.Tool.Shell

/-!
The program.

What a run may read is loaded into a file tree, the command line is carried out on that, and what
comes of it is printed and written.
-/

namespace SuiteMetrics.Program

open CommandLine (Outcome Request Surroundings)
open Files (Entry World)

/-! ### Loading -/

/-- The hidden directories that are looked into. -/
def knownHidden : List String := [".git", ".cxlens", "info"]

/-- Whether nothing below a directory is ever read. -/
def isPassedOver (name : String) : Bool :=
  name.startsWith "." && !knownHidden.contains name

/-- The entry at a path, with everything below it. -/
partial def load (path : String) : IO Entry := do
  let place ← IO.FS.realPath path
  let data ← place.metadata
  match data.type with
  | .dir =>
    let mut entries := []
    for e in ← place.readDir do
      let below := e.path
      let entry ← match (← below.symlinkMetadata).type with
        | .symlink => do
          let target ← try pure (← IO.FS.realPath below).toString catch _ => pure "/-/-"
          pure (Entry.link target)
        | .dir =>
          if isPassedOver e.fileName || (e.fileName != "info" && path.endsWith "/.git") then
            pure (Entry.directory [])
          else load below.toString
        | .file => do pure (Entry.file (← IO.FS.readBinFile below).toList)
        | .other => pure (Entry.file [])
      entries := (e.fileName, entry) :: entries
    pure (.directory entries)
  | _ => do pure (.file (← IO.FS.readBinFile place).toList)

/-- A world with what stands at a path. -/
def loadInto (w : World) (path : String) : IO World := do
  try
    let real := (← IO.FS.realPath path).toString
    let w := w.insert (Files.names real) (← load real)
    if w.pathExists path then pure w
    else
      let start := if Files.isAbsolute path then [] else w.present
      pure (w.insert (start ++ Files.names path) (.link real))
  catch _ => pure w

/-- The files above a directory that decide which files below it are left out. -/
def markers : List String := [".ignore", ".gitignore", ".git/info/exclude"]

/-- The files that a request may read besides its inputs. -/
def besides (w : World) (r : Request) : List String :=
  let settings := match r.config with
    | some path => [path]
    | none => Settings.fileNames.flatMap fun name =>
      Settings.candidates w (Files.within r.path name)
  let above := (List.range w.present.length).flatMap fun n =>
    markers.map (Files.within (Files.absoluteText (w.present.take n)))
  settings ++ above

/-- The directories that a request reads. -/
def inputs (r : Request) : List String :=
  match r.command with
  | .importing reports => [reports]
  | _ => [r.path]

/-- The world that a request may read. -/
def worldOf (present : String) (r : Request) : IO World := do
  let empty : World := ⟨.directory [], Files.names present⟩
  let w ← ([present] ++ inputs r ++ r.outputDir.toList).foldlM loadInto empty
  (besides w r).foldlM loadInto w

/-- The variables of the environment. -/
def environment : IO (List (String × String)) := do
  let bytes ← try IO.FS.readBinFile "/proc/self/environ" catch _ => pure .empty
  let entries := Text.splitAt '\x00' (Text.Utf8.decodeLenient bytes.toList).toList
  pure (entries.filterMap fun entry =>
    (Text.splitFirst '=' entry).map fun (name, value) =>
      (String.ofList name, String.ofList value))

/-! ### Printing -/

/-- What is told to a user whose command line cannot be carried out. -/
def usage : String :=
  "usage: cxlens [-p DIR] [-f FORMAT] [-c FILE] [-o DIR] [-j N] [-v] score|import|syntax"

/-- Prints and writes what comes of a run. -/
def finish (o : Outcome) : IO UInt32 := do
  IO.print o.printed
  for (path, text) in o.written do
    for directory in (Files.World.ladder path).drop 1 |>.reverse do
      try IO.FS.createDir directory catch _ => pure ()
    IO.FS.writeFile path text
  match o.failure with
  | some failure => IO.eprintln (CommandLine.failureLine failure)
  | none => if o.status = 2 then IO.eprintln usage
  pure (UInt32.ofNat o.status)

/-- Carries out a command line. -/
def run (args : List String) : IO UInt32 := do
  match Request.ofArguments args with
  | .error .help => do
    IO.println usage
    pure 0
  | .error _ => finish (CommandLine.run ⟨⟨.directory [], []⟩, [], fun _ => .error ""⟩ args)
  | .ok request => do
    let w ← worldOf (← IO.currentDir).toString request
    finish (CommandLine.run ⟨w, ← environment, Tool.Shell.runner w⟩ args)

end SuiteMetrics.Program

/-- The program. -/
def main (args : List String) : IO UInt32 := SuiteMetrics.Program.run args
