import SuiteMetrics.Files.Tree

/-!
Texts of single files.

A source is wanted as text whatever its bytes are: stretches that are no text are replaced. A report
must be text. That a source is not there is told by its path, every other fault by itself.
-/

namespace SuiteMetrics.Files.World

/-- The text of a source file. -/
def sourceText (w : World) (path : String) : Except Failure String :=
  if w.pathExists path then
    match w.read path with
    | .ok bytes => .ok (Text.Utf8.decodeLenient bytes)
    | .error fault => .error (.io fault)
  else .error (.fileNotFound path)

/-- The text of a report file. -/
def reportText (w : World) (path : String) : Except Failure String :=
  match w.readText path with
  | .ok text => .ok text
  | .error fault => .error (.io fault)

end SuiteMetrics.Files.World
