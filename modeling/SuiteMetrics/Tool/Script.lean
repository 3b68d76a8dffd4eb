import SuiteMetrics.Text.Find

/-!
Scripts of a command interpreter.

A script is a list of commands. Each is run always, or only after the one before it has ended well,
or only after it has not. A command is a list of words and of redirections. A word is made of pieces:
plain text, and marks that stand for the arguments of the script and for what happened before. A
piece in quotes is kept whole; the text that an unquoted mark stands for is split at blanks.
-/

namespace SuiteMetrics.Tool.Script

/-- A piece of a word. -/
inductive Piece where
  | text (s : List Char)
  /-- An argument by its number; the name of the script has the number 0. -/
  | argument (n : Nat)
  /-- All arguments. -/
  | arguments
  /-- How many arguments there are. -/
  | count
  /-- The status of the command before. -/
  | status
  /-- The number of the running interpreter. -/
  | interpreter
  deriving DecidableEq, Repr

/-- A piece and whether it is in quotes. -/
structure Part where
  piece : Piece
  quoted : Bool
  deriving DecidableEq, Repr

/-- The parts of a word. -/
abbrev Word := List Part

/-- Where a command writes. -/
inductive Stream where
  | printed
  | complaints
  deriving DecidableEq, Repr

/-- What is written to a stream goes where another stream goes, or is lost. -/
structure Redirection where
  stream : Stream
  target : Option Stream
  deriving DecidableEq, Repr

/-- When a command is run. -/
inductive Joint where
  | always
  | afterSuccess
  | afterFailure
  deriving DecidableEq, Repr

/-- A command of a script. -/
structure Command where
  joint : Joint
  /-- The line on which it stands, counted from one. -/
  line : Nat
  words : List Word
  redirections : List Redirection
  deriving Repr

/-! ### Words -/

/-- Whether a character is a blank inside a line. -/
def isBlank (c : Char) : Bool := c == ' ' || c == '\t'

/-- Whether an unquoted character ends a word. -/
def endsWord (c : Char) : Bool := isBlank c || "\n;&|<>()".toList.contains c

/-- Whether a character can stand in the name of a variable. -/
def isNameChar (c : Char) : Bool := c.isAlphanum || c == '_'

/-- What a mark after a dollar sign stands for, and the text after it. No variable is set, so a name
stands for an empty text; a dollar sign before anything else is plain text. -/
def mark? : List Char → Option (Piece × List Char)
  | '@' :: rest => some (.arguments, rest)
  | '*' :: rest => some (.arguments, rest)
  | '#' :: rest => some (.count, rest)
  | '?' :: rest => some (.status, rest)
  | '$' :: rest => some (.interpreter, rest)
  | '(' :: _ => none
  | '\x7b' :: rest =>
    match rest.span (· != '\x7d') with
    | (_, []) => none
    | (inside, _ :: rest) =>
      match (String.ofList inside).toNat? with
      | some n => some (.argument n, rest)
      | none => if inside.all isNameChar then some (.text [], rest) else none
  | c :: rest =>
    if c.isDigit then some (.argument (c.toNat - '0'.toNat), rest)
    else if isNameChar c then some (.text [], rest.dropWhile isNameChar)
    else some (.text ['$'], c :: rest)
  | [] => some (.text ['$'], [])

/-- Whether a backslash in double quotes protects a character. -/
def isProtected (c : Char) : Bool := "$\x60\"\\".toList.contains c

/-- The parts up to the end of double quotes, and the text after it. -/
def readDouble : Nat → List Char → Option (Word × List Char)
  | 0, _ => none
  | _, [] => none
  | fuel + 1, c :: rest =>
    let plain (piece : Piece) (rest : List Char) : Option (Word × List Char) := do
      let (word, rest) ← readDouble fuel rest
      pure (⟨piece, true⟩ :: word, rest)
    match c, rest with
    | '"', _ => some ([⟨.text [], true⟩], rest)
    | '\x60', _ => none
    | '\\', '\n' :: rest => readDouble fuel rest
    | '\\', d :: rest => plain (.text (if isProtected d then [d] else ['\\', d])) rest
    | '$', _ => do
      let (piece, rest) ← mark? rest
      plain piece rest
    | _, _ => plain (.text [c]) rest

/-- The parts up to the end of a word, and the text after it. -/
def readWord : Nat → List Char → Option (Word × List Char)
  | 0, _ => none
  | _, [] => some ([], [])
  | fuel + 1, c :: rest =>
    let followed (word : Word) (rest : List Char) : Option (Word × List Char) := do
      let (more, rest) ← readWord fuel rest
      pure (word ++ more, rest)
    if endsWord c then some ([], c :: rest)
    else
      match c, rest with
      | '\x27', _ =>
        match rest.span (· != '\x27') with
        | (_, []) => none
        | (inside, _ :: rest) => followed [⟨.text inside, true⟩] rest
      | '"', _ => do
        let (word, rest) ← readDouble (rest.length + 1) rest
        followed word rest
      | '\x60', _ => none
      | '\\', '\n' :: rest => followed [] rest
      | '\\', d :: rest => followed [⟨.text [d], true⟩] rest
      | '$', _ => do
        let (piece, rest) ← mark? rest
        followed [⟨piece, false⟩] rest
      | _, _ => followed [⟨.text [c], true⟩] rest

/-! ### Commands -/

/-- A token of a script. -/
inductive Token where
  | word (w : Word)
  | redirection (r : Redirection)
  | joint (j : Joint)
  | lineEnd
  deriving Repr

/-- The stream with a number. -/
def stream? : Char → Option Stream
  | '1' => some .printed
  | '2' => some .complaints
  | _ => none

/-- A redirection of a stream, from the text after its arrow. What goes to a file is lost. -/
def readTarget (stream : Stream) : List Char → Option (Token × List Char)
  | '&' :: c :: rest => do pure (.redirection ⟨stream, some (← stream? c)⟩, rest)
  | s => do
    let s := (if s.head? = some '>' then s.drop 1 else s).dropWhile isBlank
    let (word, rest) ← readWord (s.length + 1) s
    if word.isEmpty then none else pure (.redirection ⟨stream, none⟩, rest)

/-- The tokens of a script; none for a script that cannot be read. -/
def tokens? : Nat → List Char → Option (List Token)
  | 0, _ => none
  | _, [] => some []
  | fuel + 1, c :: rest =>
    let followed (read : Option (Token × List Char)) : Option (List Token) := do
      let (token, rest) ← read
      pure (token :: (← tokens? fuel rest))
    match c, rest with
    | '#', _ => tokens? fuel (rest.dropWhile (· != '\n'))
    | '\n', _ => followed (some (.lineEnd, rest))
    | ';', _ => followed (some (.joint .always, rest))
    | '&', '&' :: rest => followed (some (.joint .afterSuccess, rest))
    | '|', '|' :: rest => followed (some (.joint .afterFailure, rest))
    | '>', _ => followed (readTarget .printed rest)
    | '1', '>' :: rest => followed (readTarget .printed rest)
    | '2', '>' :: rest => followed (readTarget .complaints rest)
    | _, _ =>
      if isBlank c then tokens? fuel rest
      else if endsWord c then none
      else
        followed do
          let (word, rest) ← readWord (rest.length + 2) (c :: rest)
          pure (.word word, rest)

/-- A script while its tokens are gathered: the commands done, the last one first, and the one that
is being gathered. -/
structure Gathering where
  done : List Command
  command : Command

namespace Gathering

/-- Before the first token. -/
def start : Gathering := ⟨[], ⟨.always, 1, [], []⟩⟩

/-- Whether the command that is being gathered has no word yet. -/
def isFresh (g : Gathering) : Bool := g.command.words.isEmpty && g.command.redirections.isEmpty

/-- The end of a command, and when the next one is run. -/
def finish (joint : Joint) (line : Nat) (g : Gathering) : Gathering :=
  ⟨if g.isFresh then g.done else g.command :: g.done, ⟨joint, line, [], []⟩⟩

/-- The next token. A joint must follow a command. -/
def step? (g : Gathering) : Token → Option Gathering
  | .word w => some { g with command := { g.command with words := g.command.words ++ [w] } }
  | .redirection r =>
    some { g with command := { g.command with redirections := g.command.redirections ++ [r] } }
  | .joint j => if g.isFresh then none else some (g.finish j g.command.line)
  | .lineEnd =>
    let joint := if g.isFresh then g.command.joint else .always
    some (g.finish joint (g.command.line + 1))

/-- The commands at the end of a script, which must not end with a joint that asks for one more. -/
def commands? (g : Gathering) : Option (List Command) :=
  if g.isFresh && g.command.joint != .always then none
  else some (g.finish .always g.command.line).done.reverse

end Gathering

/-- The commands of a script, if it can be read. -/
def commands? (script : String) : Option (List Command) := do
  let tokens ← tokens? (script.toList.length + 1) script.toList
  let g ← tokens.foldlM Gathering.step? Gathering.start
  g.commands?

end SuiteMetrics.Tool.Script
