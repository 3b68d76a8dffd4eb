import SuiteMetrics.Metric

/-!
Programs that measure files.

A program is called with arguments and answers with what it printed and how it ended. An
instrument says which call measures a file and how the answer is read; it never runs anything
itself. `Instrument.measure` puts both together for a way to run programs. A program that cannot
be started measures nothing.
-/

namespace SuiteMetrics.Tool

/-- A program with its arguments. -/
structure Call where
  program : String
  args : List String
  /-- Where the program is started, if not in the present directory. -/
  workingDir : Option String
  deriving DecidableEq, Repr

/-- What a program printed and how it ended. -/
structure Output where
  /-- The exit status, absent for a program that was killed. -/
  status : Option Int
  stdout : String
  stderr : String
  deriving DecidableEq, Repr

/-- Whether a program ended well. -/
def Output.success (o : Output) : Bool := o.status = some 0

/-- A way to run programs: what a call prints, or why the program cannot be started. -/
abbrev Runner := Call → Except String Output

/-- A measured value. -/
structure Measurement where
  metric : Metric
  value : Float

/-- A program that measures files. -/
structure Instrument where
  name : String
  /-- The metrics that it may give. -/
  metrics : List Metric
  /-- The call that measures a file, if the file can be measured. -/
  call? : String → Option Call
  /-- The values in the answer for a file. -/
  read : String → Output → List Measurement

/-- What an instrument measures of a file. -/
def Instrument.measure (i : Instrument) (run : Runner) (file : String) : List Measurement :=
  match (i.call? file).map run with
  | some (.ok output) => i.read file output
  | _ => []

end SuiteMetrics.Tool
