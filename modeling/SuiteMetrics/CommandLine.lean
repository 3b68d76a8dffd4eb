import SuiteMetrics.Analysis.Score

/-!
The command line.

A command line is options, the name of a command, and what the command takes. The options that every
command knows may stand before the command's name or after it; after it they count more. An option's
value is attached to it or is the next argument. A value is checked only when it is clear that it is
complete, that is, at the next option or operand of its level or at the level's end; the level of a
command ends before the level around it.
-/

namespace SuiteMetrics.CommandLine

open Analysis (MetricSource)
open Render (Format)

/-! ### Commands and options -/

/-- The name of a command. -/
inductive CommandName where
  | score
  | importing
  | checking
  deriving DecidableEq, Repr

namespace CommandName

/-- The commands. -/
def all : List CommandName := [.score, .importing, .checking]

/-- The written name of a command. -/
def name : CommandName → String
  | .score => "score"
  | .importing => "import"
  | .checking => "syntax"

/-- The command with a written name. -/
def ofName? (s : String) : Option CommandName := all.find? fun c => c.name == s

end CommandName

/-- The word that asks for help about commands. -/
def helpWord : String := "help"

/-- An option that stands for itself. -/
inductive Switch where
  | verbose
  | byMethod
  | help
  | version
  deriving DecidableEq, Repr

/-- What takes a value: an option, or the operand of a command. -/
inductive Slot where
  | path
  | format
  | config
  | jobs
  | outputDir
  | metrics
  | reports
  deriving DecidableEq, Repr

/-- An option. -/
inductive Flag where
  | switch (s : Switch)
  | valued (s : Slot)
  deriving DecidableEq, Repr

/-- The part of a command line before the name of a command, or after it. -/
inductive Level where
  | outer
  | inner (command : CommandName)
  deriving DecidableEq, Repr

namespace Level

/-- The options of a level with their long names and their letters. -/
def flags : Level → List (String × Option Char × Flag)
  | .outer => common ++ [("version", some 'V', .switch .version)]
  | .inner .score =>
    common ++ [("metrics", some 'm', .valued .metrics), ("by-method", none, .switch .byMethod)]
  | .inner _ => common
where
  /-- The options of every level. -/
  common : List (String × Option Char × Flag) :=
    [("path", some 'p', .valued .path), ("format", some 'f', .valued .format),
      ("config", some 'c', .valued .config), ("verbose", some 'v', .switch .verbose),
      ("jobs", some 'j', .valued .jobs), ("output-dir", some 'o', .valued .outputDir),
      ("help", some 'h', .switch .help)]

/-- The option with a long name. -/
def long? (level : Level) (name : List Char) : Option Flag :=
  (level.flags.find? fun f => f.1.toList == name).map fun f => f.2.2

/-- The option with a letter. -/
def letter? (level : Level) (c : Char) : Option Flag :=
  (level.flags.find? fun f => f.2.1 == some c).map fun f => f.2.2

end Level

/-- Why a command line is not carried out. -/
inductive Refusal where
  /-- Help is asked for. -/
  | help
  /-- The version is asked for. -/
  | version
  /-- Nothing is said at all. -/
  | nothingSaid
  | missingCommand
  | unknownCommand
  | unknownArgument
  | repeatedOption
  /-- An option has no value, or one that it cannot have. -/
  | invalidValue
  /-- The value of an option is no number. -/
  | notANumber
  /-- A switch has a value. -/
  | unneededValue
  | missingOperand
  deriving DecidableEq, Repr

/-- The exit status after a refusal: asking for something is no fault. -/
def Refusal.status : Refusal → Nat
  | .help => 0
  | .version => 0
  | _ => 2

/-! ### Values -/

/-- What is said on one level. -/
structure Given where
  path : Option String
  format : Option Format
  config : Option String
  verbose : Bool
  jobs : Option Nat
  outputDir : Option String
  metrics : Option (List MetricSource)
  byMethod : Bool
  reports : Option String

namespace Given

/-- Nothing is said. -/
def nothing : Given := ⟨none, none, none, false, none, none, none, false, none⟩

/-- Whether anything is said. -/
def isNothing (g : Given) : Bool :=
  g.path.isNone && g.format.isNone && g.config.isNone && !g.verbose && g.jobs.isNone &&
    g.outputDir.isNone && g.metrics.isNone && !g.byMethod && g.reports.isNone

/-- A value that may be said only once. -/
def once {α : Type} (old : Option α) (read : Except Refusal α) : Except Refusal (Option α) :=
  match old with
  | some _ => .error .repeatedOption
  | none => read.map some

/-- A path, which must not be empty. -/
def readPath (s : String) : Except Refusal String :=
  if s.isEmpty then .error .invalidValue else .ok s

/-- One of the written names of some things. -/
def readName {α : Type} (ofName? : String → Option α) (s : String) : Except Refusal α :=
  match ofName? s with
  | some x => .ok x
  | none => .error .invalidValue

/-- The largest number of workers that can be written. -/
def jobsLimit : Nat := 0xFFFFFFFFFFFFFFFF

/-- A number, which may have a plus sign. -/
def readCount (s : String) : Except Refusal Nat :=
  let digits := match s.toList with
    | '+' :: digits => digits
    | digits => digits
  let n := Decimal.digitsValue digits
  if !digits.isEmpty && digits.all Decimal.isDigit && n ≤ jobsLimit then .ok n
  else .error .notANumber

/-- Names with commas between them. -/
def readNames (s : String) : Except Refusal (List MetricSource) :=
  (Text.splitAt ',' s.toList).mapM fun part => readName MetricSource.ofName? (String.ofList part)

/-- What is said with one more value. -/
def set (g : Given) (slot : Slot) (value : String) : Except Refusal Given := do
  match slot with
  | .path => pure { g with path := ← once g.path (readPath value) }
  | .format => pure { g with format := ← once g.format (readName Format.ofName? value) }
  | .config => pure { g with config := ← once g.config (readPath value) }
  | .jobs => pure { g with jobs := ← once g.jobs (readCount value) }
  | .outputDir => pure { g with outputDir := ← once g.outputDir (readPath value) }
  | .metrics => pure { g with metrics := some (g.metrics.getD [] ++ (← readNames value)) }
  | .reports => pure { g with reports := ← once g.reports (readPath value) }

/-- What is said with one more switch. -/
def turn (g : Given) : Switch → Except Refusal Given
  | .verbose => if g.verbose then .error .repeatedOption else .ok { g with verbose := true }
  | .byMethod => if g.byMethod then .error .repeatedOption else .ok { g with byMethod := true }
  | .help => .error .help
  | .version => .error .version

end Given

/-! ### Reading a level -/

/-- Where a reader of a level stands. -/
structure Reading where
  given : Given
  /-- A value that is not checked yet, or an option that still waits for its value. -/
  pending : Option (Slot × Option String)
  /-- Whether no more options follow. -/
  operandsOnly : Bool

namespace Reading

/-- Before the first argument. -/
def start : Reading := ⟨.nothing, none, false⟩

/-- What is pending is checked. -/
def settle (r : Reading) : Except Refusal Reading :=
  match r.pending with
  | none => .ok r
  | some (_, none) => .error .invalidValue
  | some (slot, some value) => (r.given.set slot value).map fun g => ⟨g, none, r.operandsOnly⟩

/-- An option with a value that is attached to it. -/
def attach (r : Reading) (slot : Slot) (value : String) : Except Refusal Reading := do
  let r ← r.settle
  let given ← r.given.set slot value
  pure { r with given := given }

/-- A value that is to be checked, or an option that waits for its value. -/
def expect (r : Reading) (slot : Slot) (value : Option String) : Except Refusal Reading :=
  r.settle.map fun r => { r with pending := some (slot, value) }

/-- A switch. -/
def turn (r : Reading) (s : Switch) : Except Refusal Reading := do
  let r ← r.settle
  let given ← r.given.turn s
  pure { r with given := given }

/-- A long option, from the text after its dashes. -/
def readLong (level : Level) (r : Reading) (text : List Char) : Except Refusal Reading :=
  let (name, value) := match Text.splitFirst '=' text with
    | some (name, value) => (name, some (String.ofList value))
    | none => (text, none)
  match level.long? name, value with
  | none, _ => .error .unknownArgument
  | some (.valued slot), some value => r.attach slot value
  | some (.valued slot), none => r.expect slot none
  | some (.switch _), some _ => .error .unneededValue
  | some (.switch s), none => r.turn s

/-- Some letters behind one dash: switches, and at most one option with a value, which is the rest
of the text. -/
def readLetters (level : Level) (r : Reading) : List Char → Except Refusal Reading
  | [] => .ok r
  | c :: rest =>
    match level.letter? c with
    | none => .error .unknownArgument
    | some (.switch s) =>
      match r.turn s with
      | .ok r => readLetters level r rest
      | .error why => .error why
    | some (.valued slot) =>
      match rest with
      | [] => r.expect slot none
      | '=' :: value => r.attach slot (String.ofList value)
      | value => r.attach slot (String.ofList value)

/-- Whether an option waits for its value, so that the next argument may be it. -/
def isWaiting (r : Reading) : Bool :=
  match r.pending with
  | some (_, none) => !r.operandsOnly
  | _ => false

/-- The operand that a level can still take. -/
def operandSlot? (level : Level) (r : Reading) : Option Slot :=
  match level, r.pending with
  | .inner .importing, some (.reports, _) => none
  | .inner .importing, _ => if r.given.reports.isNone then some .reports else none
  | _, _ => none

/-- An argument that is neither an option nor an option's value. -/
def readOperand (level : Level) (r : Reading) (text : String) : Except Refusal Reading :=
  match r.operandSlot? level, level with
  | some slot, _ => r.expect slot (some text)
  | none, .inner _ => .error .unknownArgument
  | none, .outer =>
    if r.operandsOnly && ((CommandName.ofName? text).isSome || text == helpWord) then
      .error .unknownArgument
    else .error .unknownCommand

/-- An argument that is not the name of a command. -/
def readArgument (level : Level) (r : Reading) (text : String) : Except Refusal Reading :=
  if r.operandsOnly then r.readOperand level text
  else
    match text.toList with
    | ['-', '-'] => .ok { r with operandsOnly := true }
    | '-' :: '-' :: name => r.readLong level name
    | '-' :: c :: letters => r.readLetters level (c :: letters)
    | _ =>
      match r.pending with
      | some (slot, none) => .ok { r with pending := some (slot, some text) }
      | _ => r.readOperand level text

/-- Reads the level of a command. -/
def readInner (command : CommandName) (r : Reading) : List String → Except Refusal Reading
  | [] => r.settle
  | arg :: rest =>
    match r.readArgument (.inner command) arg with
    | .ok r => readInner command r rest
    | .error why => .error why

/-- Whether an argument names a command rather than a value. -/
def takesCommand (r : Reading) : Bool := !r.operandsOnly && !r.isWaiting

/-- Reads the outer level up to the name of a command. Gives the command, if there is one, and the
arguments after it. -/
def readOuter (r : Reading) :
    List String → Except Refusal (Reading × Option (CommandName × List String))
  | [] => .ok (r, none)
  | arg :: rest =>
    if r.takesCommand && arg == helpWord then .error (helpAbout rest)
    else
      match if r.takesCommand then CommandName.ofName? arg else none with
      | some command => .ok (r, some (command, rest))
      | none =>
        match r.readArgument .outer arg with
        | .ok r => readOuter r rest
        | .error why => .error why
where
  /-- What comes of asking for help about commands: there is help about every command, and about
  help. -/
  helpAbout : List String → Refusal
    | [] => .help
    | [name] =>
      if (CommandName.ofName? name).isSome || name == helpWord then .help else .unknownCommand
    | _ => .unknownCommand

end Reading

/-! ### Requests -/

/-- What a command is to do. -/
inductive Command where
  | score (sources : List MetricSource) (byMethod : Bool)
  | importing (reports : String)
  | checking
  deriving DecidableEq, Repr

/-- What a user asks for. -/
structure Request where
  /-- The directory that is analysed. -/
  path : String
  /-- The format of the report, if one is asked for. -/
  format : Option Format
  /-- The settings file, if one is named. -/
  config : Option String
  verbose : Bool
  /-- The number of workers, if one is asked for. -/
  jobs : Option Nat
  /-- Where the tables of the report are written to, if anywhere. -/
  outputDir : Option String
  command : Command

/-- What a command is to do, from what is said on its level. -/
def Command.ofGiven (g : Given) : CommandName → Except Refusal Command
  | .score => .ok (.score (g.metrics.getD MetricSource.default) g.byMethod)
  | .importing =>
    match g.reports with
    | some reports => .ok (.importing reports)
    | none => .error .missingOperand
  | .checking => .ok .checking

/-- What both levels say together. -/
def Request.ofLevels (outer inner : Given) (command : Command) : Request where
  path := (inner.path <|> outer.path).getD "."
  format := inner.format <|> outer.format
  config := inner.config <|> outer.config
  verbose := outer.verbose || inner.verbose
  jobs := inner.jobs <|> outer.jobs
  outputDir := inner.outputDir <|> outer.outputDir
  command := command

/-- What a command line asks for. -/
def Request.ofArguments (args : List String) : Except Refusal Request := do
  match ← Reading.start.readOuter args with
  | (r, some (name, rest)) =>
    let inner ← Reading.start.readInner name rest
    let command ← Command.ofGiven inner.given name
    let outer ← r.settle
    pure (.ofLevels outer.given inner.given command)
  | (r, none) =>
    let outer ← r.settle
    throw (if outer.given.isNothing then .nothingSaid else .missingCommand)

/-- The format of the report: the one that is asked for, or else the one in the settings. -/
def Request.reportFormat (r : Request) (settings : Settings) : Format :=
  r.format.getD settings.format

end SuiteMetrics.CommandLine
