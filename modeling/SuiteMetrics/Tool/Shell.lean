import SuiteMetrics.Decimal.Reader
import SuiteMetrics.Files.Tree
import SuiteMetrics.Text.Blank
import SuiteMetrics.Tool
import SuiteMetrics.Tool.Script

/-!
Programs that are always at hand.

A few small programs and a command interpreter for scripts made of them are run on a file tree: they
read files and print, and change nothing. Any other program is not there. `runner` runs them as
tools.
-/

namespace SuiteMetrics.Tool.Shell

open Files (World)
open Text.Utf8 (Bytes)
open Script (Command Part Piece Redirection Stream Word)

/-! ### Programs -/

/-- How a command ends. -/
inductive Ending where
  | status (n : Nat)
  /-- The interpreter ends with a status. -/
  | leave (n : Nat)
  /-- The interpreter is killed. -/
  | killed
  deriving DecidableEq, Repr

/-- What a command does. -/
structure Effect where
  printed : Bytes
  complaints : Bytes
  ending : Ending

namespace Effect

/-- Nothing is written. -/
def quiet (status : Nat) : Effect := ⟨[], [], .status status⟩

/-- A text is printed. -/
def say (text : String) : Effect := ⟨Text.Utf8.encode text, [], .status 0⟩

/-- A complaint is written. -/
def complain (text : String) (status : Nat) : Effect :=
  ⟨[], Text.Utf8.encode text, .status status⟩

/-- What two commands do, one after the other. -/
def andThen (a b : Effect) : Effect :=
  ⟨a.printed ++ b.printed, a.complaints ++ b.complaints, b.ending⟩

end Effect

/-- The value of octal digits as a byte. -/
def octalByte (digits : List Char) : UInt8 :=
  UInt8.ofNat (digits.foldl (fun n d => 8 * n + (d.toNat - '0'.toNat)) 0)

/-- Whether a character is an octal digit. -/
def isOctal (c : Char) : Bool := '0' ≤ c && c ≤ '7'

/-- The byte of an escape with one letter. -/
def escaped? : Char → Option UInt8
  | 'a' => some 7
  | 'b' => some 8
  | 'f' => some 12
  | 'n' => some 10
  | 'r' => some 13
  | 't' => some 9
  | 'v' => some 11
  | '\\' => some 92
  | _ => none

/-- The bytes of a character. -/
def charBytes (c : Char) : Bytes := Text.Utf8.encode c.toString

/-- The bytes of a text in which backslashes begin escapes. The number of octal digits is limited;
where a zero leads, it is not counted. -/
def unescape (leadingZero : Bool) : Nat → List Char → Bytes
  | 0, _ => []
  | _, [] => []
  | fuel + 1, '\\' :: c :: rest =>
    if isOctal c then
      let digits := if leadingZero && c == '0' then rest else c :: rest
      let used := (digits.take 3).takeWhile isOctal
      octalByte used :: unescape leadingZero fuel (digits.drop used.length)
    else
      match escaped? c with
      | some byte => byte :: unescape leadingZero fuel rest
      | none => 92 :: charBytes c ++ unescape leadingZero fuel rest
  | fuel + 1, c :: rest => charBytes c ++ unescape leadingZero fuel rest

/-- The bytes of a text with escapes. -/
def unescaped (leadingZero : Bool) (s : List Char) : Bytes :=
  unescape leadingZero (s.length + 1) s

/-- A piece of a format. -/
inductive FormatPiece where
  | bytes (b : Bytes)
  | text
  | escapedText
  | number
  | firstChar
  deriving Repr

/-- The pieces of a format; none for a conversion that nobody knows. -/
def formatPieces? : Nat → List Char → Option (List FormatPiece)
  | 0, _ => none
  | _, [] => some []
  | fuel + 1, '%' :: c :: rest => do
    let piece ← match c with
      | '%' => some (.bytes [37])
      | 's' => some .text
      | 'b' => some .escapedText
      | 'd' => some .number
      | 'i' => some .number
      | 'c' => some .firstChar
      | _ => none
    pure (piece :: (← formatPieces? fuel rest))
  | _, '%' :: [] => none
  | fuel + 1, c :: rest => do
    let more := rest.takeWhile (· != '%')
    let pieces ← formatPieces? fuel (rest.drop more.length)
    pure (.bytes (unescaped false (c :: more)) :: pieces)

/-- The bytes that a format makes of arguments, and the arguments that it does not use. -/
def fill : List FormatPiece → List String → Bytes × List String
  | [], args => ([], args)
  | piece :: pieces, args =>
    let arg := args.head?.getD ""
    let (bytes, args) := match piece with
      | .bytes b => (b, args)
      | .text => (Text.Utf8.encode arg, args.drop 1)
      | .escapedText => (unescaped true arg.toList, args.drop 1)
      | .number => (Text.Utf8.encode (toString (arg.toInt?.getD 0)), args.drop 1)
      | .firstChar => ((arg.toList.take 1).flatMap charBytes, args.drop 1)
    let (more, args) := fill pieces args
    (bytes ++ more, args)

/-- The bytes that a format makes of all arguments: it is used again while arguments are left. -/
def fillAll (pieces : List FormatPiece) : Nat → List String → Bytes
  | 0, _ => []
  | fuel + 1, args =>
    let (bytes, left) := fill pieces args
    if left.isEmpty || left.length = args.length then bytes
    else bytes ++ fillAll pieces fuel left

/-- Prints arguments by a format. -/
def runPrintf : List String → Effect
  | [] => .complain "printf: usage: printf format [arg ...]\n" 2
  | format :: args =>
    match formatPieces? (format.toList.length + 1) format.toList with
    | some pieces => ⟨fillAll pieces (args.length + 1) args, [], .status 0⟩
    | none => .complain "printf: invalid directive\n" 1

/-- Prints arguments with blanks between them. -/
def runEcho (escapes : Bool) (args : List String) : Effect :=
  let (quiet, args) := match args with
    | "-n" :: args => (true, args)
    | args => (false, args)
  let text := " ".intercalate args
  let bytes := if escapes then unescaped true text.toList else Text.Utf8.encode text
  ⟨bytes ++ if quiet then [] else [10], [], .status 0⟩

/-- What a program says about a file that it cannot read. -/
def faultText : IoFault → String
  | .notFound => "No such file or directory"
  | .notDirectory => "Not a directory"
  | .isDirectory => "Is a directory"
  | .linkLoop => "Too many levels of symbolic links"
  | fault => fault.message

/-- Prints a file. -/
def showFile (w : World) (path : String) : Effect :=
  if path = "-" then .quiet 0
  else
    match w.read path with
    | .ok bytes => ⟨bytes, [], .status 0⟩
    | .error fault => .complain ("cat: " ++ path ++ ": " ++ faultText fault ++ "\n") 1

/-- Prints files one after the other. -/
def runCat (w : World) (paths : List String) : Effect :=
  let effects := paths.map (showFile w)
  let failed := effects.any fun e => e.ending != .status 0
  { effects.foldl Effect.andThen (.quiet 0) with ending := .status (if failed then 1 else 0) }

/-- A program that any caller can run. -/
def program? (w : World) (escapes : Bool) : String → Option (List String → Effect)
  | "true" => some fun _ => .quiet 0
  | "false" => some fun _ => .quiet 1
  | "echo" => some (runEcho escapes)
  | "printf" => some runPrintf
  | "pwd" => some fun _ => .say (Files.absoluteText w.present ++ "\n")
  | "cat" => some (runCat w)
  | _ => none

/-! ### Words -/

/-- What a script is given, and what happened so far. -/
structure Setting where
  world : World
  name : String
  args : List String
  status : Nat

/-- The number of the interpreter. -/
def ownNumber : String := "2"

/-- The texts that a piece stands for. -/
def Setting.texts (s : Setting) : Piece → List (List Char)
  | .text t => [t]
  | .argument 0 => [s.name.toList]
  | .argument (n + 1) => [(s.args[n]?.getD "").toList]
  | .arguments => s.args.map String.toList
  | .count => [(toString s.args.length).toList]
  | .status => [(toString s.status).toList]
  | .interpreter => [ownNumber.toList]

/-- The fields of a word while they are made: those done, the last one first, and the one that is
being made. -/
structure Fields where
  done : List (List Char)
  current : Option (List Char)

namespace Fields

/-- More text for the current field. -/
def append (f : Fields) (text : List Char) : Fields :=
  { f with current := some (f.current.getD [] ++ text) }

/-- The end of the current field. -/
def close (f : Fields) : Fields :=
  match f.current with
  | some text => ⟨text :: f.done, none⟩
  | none => f

/-- Texts as one field each, the first one joined to the current field. -/
def appendAll (f : Fields) : List (List Char) → Fields
  | [] => f
  | [text] => f.append text
  | text :: more => appendAll (f.append text).close more

/-- An unquoted text, which is split at its blanks. -/
def appendSplit (f : Fields) (text : List Char) : Fields :=
  let starts := (text.head?.map Text.isBlank).getD false
  let ends := (text.getLast?.map Text.isBlank).getD false
  let f := if starts then f.close else f
  let f := f.appendAll (Text.words text)
  if ends then f.close else f

/-- Unquoted texts, each in fields of its own. -/
def appendSplitAll (f : Fields) : List (List Char) → Fields
  | [] => f
  | [text] => f.appendSplit text
  | text :: more => appendSplitAll (f.appendSplit text).close more

end Fields

/-- The fields after one more part of a word. -/
def Setting.addPart (s : Setting) (f : Fields) (part : Part) : Fields :=
  if part.quoted then f.appendAll (s.texts part.piece) else f.appendSplitAll (s.texts part.piece)

/-- The texts that a word stands for. -/
def Setting.expand (s : Setting) (word : Word) : List String :=
  ((word.foldl s.addPart ⟨[], none⟩).close.done.reverse).map String.ofList

/-! ### Scripts -/

/-- Whether a signal ends a program. -/
def isDeadly (option : String) : Bool :=
  ["-9", "-KILL", "-15", "-TERM", "-2", "-INT", "-1", "-HUP"].contains option

/-- Sends a signal, which only the interpreter can get. -/
def runKill : List String → Effect
  | [number] => if number = ownNumber then ⟨[], [], .killed⟩ else .quiet 1
  | [option, number] =>
    if number = ownNumber then if isDeadly option then ⟨[], [], .killed⟩ else .quiet 0 else .quiet 1
  | ["-s", signal, number] =>
    if number = ownNumber && isDeadly ("-" ++ signal) then ⟨[], [], .killed⟩ else .quiet 1
  | _ => .quiet 2

/-- Leaves the interpreter. -/
def Setting.runExit (s : Setting) : List String → Effect
  | [] => ⟨[], [], .leave s.status⟩
  | n :: _ =>
    match n.toNat? with
    | some n => ⟨[], [], .leave (n % 256)⟩
    | none => ⟨[], [], .leave 2⟩

/-- Runs a command with its arguments. -/
def Setting.call (s : Setting) (line : Nat) (name : String) (args : List String) : Effect :=
  match name with
  | "exit" => s.runExit args
  | "kill" => runKill args
  | ":" => .quiet 0
  | _ =>
    match program? s.world true name with
    | some run => run args
    | none => .complain (s.name ++ ": " ++ toString line ++ ": " ++ name ++ ": not found\n") 127

/-- Where the two streams of a command go. -/
structure Routes where
  printed : Option Stream
  complaints : Option Stream

namespace Routes

/-- Where a stream goes. -/
def of (r : Routes) : Stream → Option Stream
  | .printed => r.printed
  | .complaints => r.complaints

/-- The routes after a redirection. -/
def redirect (r : Routes) (change : Redirection) : Routes :=
  let target := change.target.bind r.of
  match change.stream with
  | .printed => { r with printed := target }
  | .complaints => { r with complaints := target }

/-- What arrives at a stream. -/
def arriving (r : Routes) (e : Effect) (stream : Stream) : Bytes :=
  (if r.printed = some stream then e.printed else []) ++
    if r.complaints = some stream then e.complaints else []

/-- An effect whose output takes these routes. -/
def apply (r : Routes) (e : Effect) : Effect :=
  ⟨r.arriving e .printed, r.arriving e .complaints, e.ending⟩

end Routes

/-- Runs a command of a script. -/
def Setting.runCommand (s : Setting) (c : Command) : Effect :=
  let routes := c.redirections.foldl Routes.redirect ⟨some .printed, some .complaints⟩
  match c.words.flatMap s.expand with
  | [] => .quiet 0
  | name :: args => routes.apply (s.call c.line name args)

/-- Whether a command is run after one with a status. -/
def isDue (status : Nat) : Script.Joint → Bool
  | .always => true
  | .afterSuccess => status == 0
  | .afterFailure => status != 0

/-- Runs the commands of a script. -/
def Setting.runAll (s : Setting) : List Command → Effect
  | [] => .quiet s.status
  | c :: rest =>
    if isDue s.status c.joint then
      let e := s.runCommand c
      match e.ending with
      | .status n => e.andThen (runAll { s with status := n } rest)
      | _ => e
    else runAll s rest

/-- Runs a script. -/
def runScript (w : World) (name script : String) (args : List String) : Effect :=
  match Script.commands? script with
  | some commands => Setting.runAll ⟨w, name, args, 0⟩ commands
  | none => .complain (name ++ ": 1: Syntax error\n") 2

/-- Runs the interpreter: a script is given as an argument or in a file. -/
def runInterpreter (w : World) : List String → Effect
  | ["-c"] => .complain "sh: 0: -c requires an argument\n" 2
  | "-c" :: script :: name :: args => runScript w name script args
  | "-c" :: [script] => runScript w "sh" script []
  | [] => .quiet 0
  | path :: args =>
    match w.readText path with
    | .ok script => runScript w path script args
    | .error _ => .complain ("sh: 0: cannot open " ++ path ++ ": No such file\n") 2

/-! ### Tools -/

/-- The output of a program with an effect. -/
def Effect.output (e : Effect) : Output where
  status :=
    match e.ending with
    | .status n => some n
    | .leave n => some n
    | .killed => none
  stdout := Text.Utf8.decodeLenient e.printed
  stderr := Text.Utf8.decodeLenient e.complaints

/-- The directories in which programs stand. -/
def programDirectories : List String := ["/bin/", "/usr/bin/"]

/-- The name of a program without the directory in which programs stand. -/
def programName (program : String) : String :=
  match programDirectories.find? fun d => d.toList.isPrefixOf program.toList with
  | some d => String.ofList (program.toList.drop d.length)
  | none => program

/-- Runs a program in a world. -/
def start (w : World) (program : String) (args : List String) : Except String Output :=
  match programName program with
  | "sh" => .ok (runInterpreter w args).output
  | name =>
    match program? w false name with
    | some run => .ok (run args).output
    | none =>
      if program.toList.contains '/' && w.pathExists program then
        .error "Permission denied (os error 13)"
      else .error IoFault.notFound.message

/-- The programs as tools. -/
def runner (w : World) : Runner := fun call =>
  match call.workingDir with
  | none => start w call.program call.args
  | some directory =>
    match w.resolve directory with
    | .ok (place, .directory _) => start { w with present := place } call.program call.args
    | .ok _ => .error IoFault.notDirectory.message
    | .error fault => .error fault.message

end SuiteMetrics.Tool.Shell
