import SuiteMetrics.Decimal.Reader
import SuiteMetrics.Json.Document
import SuiteMetrics.Settings.Item
import SuiteMetrics.Text.Find

/-!
Settings files in TOML.

A file is a sequence of statements: headers, which say in which table the next settings stand, and
settings. Statements are read first and then carried out on a table of nodes, which remember how
they came to be; a table may be opened by one header only, and may not be both written with dotted
names and opened by a header. A file with any fault says nothing at all.
-/

namespace SuiteMetrics.Settings.Toml

open Decimal (isDigit)

/-! ### Tables under construction -/

/-- How a table came to be. -/
inductive Origin where
  /-- On the way to a table that a header opens. -/
  | implied
  /-- By the dots in a name. -/
  | dotted
  | header
  deriving DecidableEq, Repr

/-- What stands under a name. -/
inductive Node where
  | value (item : Item)
  | table (origin : Origin) (entries : List (String × Node))
  /-- Tables with headers of one name, the last one first. -/
  | tables (last : List (String × Node)) (others : List (List (String × Node)))

/-- Named nodes. -/
abbrev Nodes := List (String × Node)

/-- Nodes with one put under a name, in place of one that is there. -/
def put (name : String) (node : Node) : Nodes → Nodes
  | [] => [(name, node)]
  | (n, old) :: rest => if n = name then (n, node) :: rest else (n, old) :: put name node rest

mutual

/-- The item that a node stands for. -/
def Node.item : Node → Item
  | .value item => item
  | .table _ entries => .table (itemsOf entries)
  | .tables last others => .list ((tablesOf others).reverse ++ [.table (itemsOf last)])

/-- The items that nodes stand for. -/
def itemsOf : List (String × Node) → List (String × Item)
  | [] => []
  | (name, node) :: rest => (name, node.item) :: itemsOf rest

/-- The tables that lists of nodes stand for. -/
def tablesOf : List (List (String × Node)) → List Item
  | [] => []
  | nodes :: rest => .table (itemsOf nodes) :: tablesOf rest

end

/-- A change of the table at the end of a path. Tables that are not there are made, with an origin;
by dotted names no table is entered that a header has opened. -/
def descend (made : Origin) (change : Origin → Nodes → Option Nodes) :
    List String → Origin → Nodes → Option Nodes
  | [], origin, nodes => change origin nodes
  | name :: path, _, nodes =>
    match nodes.lookup name with
    | none => (descend made change path made []).map fun below =>
        put name (.table made below) nodes
    | some (.value _) => none
    | some (.tables last others) => (descend made change path .header last).map fun last =>
        put name (.tables last others) nodes
    | some (.table origin below) =>
      if made = .dotted ∧ origin = .header then none
      else (descend made change path origin below).map fun below =>
        put name (.table origin below) nodes

/-- A setting put into a table under a name that is not there. -/
def setNew (isDotted : Bool) (name : String) (item : Item) (origin : Origin) (nodes : Nodes) :
    Option Nodes :=
  if (origin == .dotted) != isDotted then none
  else if (nodes.lookup name).isSome then none
  else some (put name (.value item) nodes)

/-- A setting put into a table under a path of dotted names. -/
def set (path : List String) (item : Item) (nodes : Nodes) : Option Nodes :=
  match path.getLast? with
  | none => none
  | some name =>
    let front := path.dropLast
    descend .dotted (setNew (!front.isEmpty) name item) front .header nodes

/-- A table opened by a header under a name. -/
def openTable (name : String) (_ : Origin) (nodes : Nodes) : Option Nodes :=
  match nodes.lookup name with
  | none => some (put name (.table .header []) nodes)
  | some (.table .implied below) => some (put name (.table .header below) nodes)
  | some _ => none

/-- One more table opened by a header under a name that stands for many. -/
def openNext (name : String) (_ : Origin) (nodes : Nodes) : Option Nodes :=
  match nodes.lookup name with
  | none => some (put name (.tables [] []) nodes)
  | some (.tables last others) => some (put name (.tables [] (last :: others)) nodes)
  | some _ => none

/-! ### Characters -/

/-- Blanks inside a line. -/
def isBlank (c : Char) : Bool := c == ' ' || c == '\t'

/-- Characters that may stand in a text or comment as they are. -/
def isPlain (c : Char) : Bool := c == '\t' || (0x20 ≤ c.toNat && c.toNat != 0x7F)

/-- Characters of a name without quotes. -/
def isNameChar (c : Char) : Bool := c.isAlphanum || c == '_' || c == '-'

/-- The text after the blanks at its start. -/
def skipBlanks (s : List Char) : List Char := s.dropWhile isBlank

/-- The text after a line break, if it starts with one. -/
def lineBreak? : List Char → Option (List Char)
  | '\n' :: r => some r
  | '\r' :: '\n' :: r => some r
  | _ => none

/-- The text after a comment, if it starts with one; none if the comment holds what it must not. -/
def skipComment (s : List Char) : Option (List Char) :=
  match s with
  | '#' :: r =>
    match r.dropWhile isPlain with
    | [] => some []
    | rest => (lineBreak? rest).map fun _ => rest
  | _ => some s

/-- The text after the end of a line: blanks, perhaps a comment, and a line break or the end. -/
def endLine (s : List Char) : Option (List Char) := do
  match ← skipComment (skipBlanks s) with
  | [] => some []
  | rest => lineBreak? rest

/-- The text after any blanks, comments and line breaks. `fuel` bounds their number. -/
def skipLines : Nat → List Char → Option (List Char)
  | 0, s => some s
  | fuel + 1, s => do
    let rest ← skipComment (skipBlanks s)
    match lineBreak? rest with
    | some r => skipLines fuel r
    | none => some rest

/-! ### Texts -/

/-- The character with a hexadecimal number. -/
def scalar? (digits : List Char) : Option Char := do
  let values ← digits.mapM Json.hexValue?
  let n := values.foldl (fun n d => n * 16 + d) 0
  if n < 0xD800 ∨ (0xDFFF < n ∧ n < 0x110000) then some (Char.ofNat n) else none

/-- The character of an escape after its backslash, and the text after the escape. -/
def escape? : List Char → Option (Char × List Char)
  | 'b' :: r => some ('\x08', r)
  | 't' :: r => some ('\t', r)
  | 'n' :: r => some ('\n', r)
  | 'f' :: r => some ('\x0c', r)
  | 'r' :: r => some ('\r', r)
  | '"' :: r => some ('"', r)
  | '\\' :: r => some ('\\', r)
  | 'u' :: r => if r.length < 4 then none else (scalar? (r.take 4)).map fun c => (c, r.drop 4)
  | 'U' :: r => if r.length < 8 then none else (scalar? (r.take 8)).map fun c => (c, r.drop 8)
  | _ => none

/-- The rest of a text in double quotes on one line. `fuel` bounds its length. -/
def readBasic : Nat → List Char → List Char → Option (String × List Char)
  | 0, _, _ => none
  | fuel + 1, done, s =>
    match s with
    | [] => none
    | '"' :: r => some (String.ofList done.reverse, r)
    | '\\' :: r => do
      let (c, r) ← escape? r
      readBasic fuel (c :: done) r
    | c :: r => if isPlain c then readBasic fuel (c :: done) r else none

/-- The rest of a text in single quotes on one line. -/
def readLiteral (s : List Char) : Option (String × List Char) :=
  match s.span fun c => isPlain c && c != '\'' with
  | (inside, '\'' :: r) => some (String.ofList inside, r)
  | _ => none

/-- The end of a text in triple quotes: up to two more quotes belong to the text. -/
def closing? (quote : Char) (s : List Char) : Option (List Char × List Char) :=
  let quotes := (s.takeWhile (· == quote)).length
  if quotes < 3 then none
  else
    let inside := min (quotes - 3) 2
    some (List.replicate inside quote, s.drop (inside + 3))

/-- The rest of a text after a backslash at the end of a line: all blanks and line breaks are
skipped; none if something else comes before the line break. -/
def continued? (s : List Char) : Option (List Char) :=
  match lineBreak? (skipBlanks s) with
  | none => none
  | some r => some (r.dropWhile fun c => isBlank c || c == '\n' || c == '\r')

/-- The rest of a text in triple quotes, with escapes or without. `fuel` bounds its length. -/
def readLines (quote : Char) (escapes : Bool) :
    Nat → List Char → List Char → Option (String × List Char)
  | 0, _, _ => none
  | fuel + 1, done, s =>
    match closing? quote s with
    | some (last, r) => some (String.ofList (done.reverse ++ last), r)
    | none =>
      match lineBreak? s with
      | some r => readLines quote escapes fuel ('\n' :: done) r
      | none =>
        match s with
        | [] => none
        | c :: r =>
          if c = '\\' ∧ escapes then
            match continued? r with
            | some r => readLines quote escapes fuel done r
            | none => do
              let (c, r) ← escape? r
              readLines quote escapes fuel (c :: done) r
          else if isPlain c then readLines quote escapes fuel (c :: done) r
          else none

/-- A text without the line break that comes right after its opening quotes. -/
def dropFirstBreak (s : List Char) : List Char := (lineBreak? s).getD s

/-- A text of any kind. -/
def readText (s : List Char) : Option (String × List Char) :=
  match s with
  | '"' :: '"' :: '"' :: r => readLines '"' true (s.length + 1) [] (dropFirstBreak r)
  | '\'' :: '\'' :: '\'' :: r => readLines '\'' false (s.length + 1) [] (dropFirstBreak r)
  | '"' :: r => readBasic (s.length + 1) [] r
  | '\'' :: r => readLiteral r
  | _ => none

/-! ### Numbers and dates -/

/-- Whether a text is a run of digits of a class, in which single underscores may part them. -/
def isRun (p : Char → Bool) (s : List Char) : Bool :=
  (Text.splitAt '_' s).all fun part => !part.isEmpty && part.all p

/-- A text without a sign, and whether it had a minus. -/
def takeSign : List Char → Bool × List Char
  | '-' :: r => (true, r)
  | '+' :: r => (false, r)
  | s => (false, s)

/-- Whether a text is the whole part of a number: digits without a zero in front. -/
def isWhole (s : List Char) : Bool := isRun isDigit s && (s.head? != some '0' || s == ['0'])

/-- The value of digits in a base, underscores left out. -/
def valueIn (base : Nat) (s : List Char) : Nat :=
  (s.filterMap Json.hexValue?).foldl (fun n d => n * base + d) 0

/-- Whether a text is a whole number of 64 bits. -/
def isInteger (s : List Char) : Bool :=
  let based (base : Nat) (p : Char → Bool) (digits : List Char) : Bool :=
    isRun p digits && valueIn base digits < Nat.pow 2 63
  match s with
  | '0' :: 'x' :: r => based 16 (fun c => (Json.hexValue? c).isSome) r
  | '0' :: 'o' :: r => based 8 (fun c => '0' ≤ c && c ≤ '7') r
  | '0' :: 'b' :: r => based 2 (fun c => c == '0' || c == '1') r
  | _ =>
    let (negative, digits) := takeSign s
    isWhole digits && valueIn 10 digits < Nat.pow 2 63 + if negative then 1 else 0

/-- Whether a text is an exponent with its letter. -/
def isExponent : List Char → Bool
  | c :: r => (c == 'e' || c == 'E') && isRun isDigit (takeSign r).2
  | [] => false

/-- Whether a text is a number with a point or an exponent. -/
def isFraction (s : List Char) : Bool :=
  let isMark (c : Char) : Bool := c == '.' || c == 'e' || c == 'E'
  let whole := s.takeWhile fun c => !isMark c
  isWhole whole &&
    match s.drop whole.length with
    | '.' :: r =>
      let digits := r.takeWhile fun c => !isMark c
      let exponent := r.drop digits.length
      isRun isDigit digits && (exponent.isEmpty || isExponent exponent)
    | r => isExponent r

/-- Whether a text is a number that is not whole, or no number at all but written as one. -/
def isFloat (s : List Char) : Bool :=
  let (negative, r) := takeSign s
  String.ofList r == "inf" || String.ofList r == "nan" ||
    (isFraction r &&
      match Decimal.readFloat? (r.filter (· != '_')) with
      | some x => negative || x.isFinite
      | none => false)

/-- The number that a text of a fixed count of digits stands for. -/
def number? (count : Nat) (s : List Char) : Option Nat :=
  if s.length = count ∧ s.all isDigit then some (valueIn 10 s) else none

/-- The number of days of a month. -/
def daysIn (year month : Nat) : Nat :=
  if month = 2 then
    if (year % 4 = 0 ∧ year % 100 ≠ 0) ∨ year % 400 = 0 then 29 else 28
  else if month = 4 ∨ month = 6 ∨ month = 9 ∨ month = 11 then 30
  else 31

/-- Whether a text is a day of a year. -/
def isDate (s : List Char) : Bool :=
  match Text.splitAt '-' s with
  | [y, m, d] =>
    match number? 4 y, number? 2 m, number? 2 d with
    | some y, some m, some d => 1 ≤ m && m ≤ 12 && 1 ≤ d && d ≤ daysIn y m
    | _, _, _ => false
  | _ => false

/-- Whether a text is a number of seconds, perhaps with a fraction. -/
def isSeconds (s : List Char) : Bool :=
  let isBelow (s : List Char) : Bool := ((number? 2 s).map fun n => decide (n ≤ 60)).getD false
  match Text.splitAt '.' s with
  | [whole] => isBelow whole
  | [whole, fraction] => isBelow whole && !fraction.isEmpty && fraction.all isDigit
  | _ => false

/-- Whether a text is an hour and a minute. -/
def isHourMinute (h m : List Char) : Bool :=
  match number? 2 h, number? 2 m with
  | some h, some m => h ≤ 23 && m ≤ 59
  | _, _ => false

/-- Whether a text is a time of day. -/
def isTime (s : List Char) : Bool :=
  match Text.splitAt ':' s with
  | [h, m, seconds] => isHourMinute h m && isSeconds seconds
  | _ => false

/-- Whether a text is a time of day, perhaps with a distance from universal time. -/
def isTimeWithZone (s : List Char) : Bool :=
  match s.reverse with
  | 'Z' :: r => isTime r.reverse
  | 'z' :: r => isTime r.reverse
  | _ =>
    let time := s.takeWhile fun c => c != '+' && c != '-'
    match s.drop time.length with
    | [] => isTime time
    | _ :: zone =>
      match Text.splitAt ':' zone with
      | [h, m] => isTime time && isHourMinute h m
      | _ => false

/-- Whether a text is a date, a time, or both. -/
def isMoment (s : List Char) : Bool :=
  isTime s || isDate s ||
    match s.drop 10 with
    | c :: time => (c == 'T' || c == 't' || c == ' ') && isDate (s.take 10) && isTimeWithZone time
    | [] => false

/-- Characters of numbers, truth values and dates. -/
def isWordChar (c : Char) : Bool := isNameChar c || c == '+' || c == '.' || c == ':'

/-- The length of the word at the start of a text. A date and a time with one blank between them
are one word. -/
def wordLength (s : List Char) : Nat :=
  let word := s.takeWhile isWordChar
  if isDate word then
    match s.drop word.length with
    | ' ' :: c :: r =>
      if isDigit c then word.length + 1 + ((c :: r).takeWhile isWordChar).length else word.length
    | _ => word.length
  else word.length

/-- The name under which a date or time stands in a table of its own. -/
def momentName : String := "$__toml_private_datetime"

/-- A number, a truth value or a date. A date is handed on as a table with one entry. -/
def readWord (s : List Char) : Option (Item × List Char) :=
  let length := wordLength s
  let word := s.take length
  let text := String.ofList word
  if text == "true" || text == "false" || isInteger word || isFloat word then
    some (.scalar, s.drop length)
  else if isMoment word then some (.table [(momentName, .text text)], s.drop length)
  else none

/-! ### Names, values, statements -/

/-- A name with or without quotes. -/
def readName (s : List Char) : Option (String × List Char) :=
  match s with
  | '"' :: r => readBasic (s.length + 1) [] r
  | '\'' :: r => readLiteral r
  | _ =>
    match s.span isNameChar with
    | ([], _) => none
    | (name, r) => some (String.ofList name, r)

/-- Names with dots between them. `fuel` bounds their number. -/
def readPath : Nat → List Char → Option (List String × List Char)
  | 0, _ => none
  | fuel + 1, s => do
    let (name, r) ← readName (skipBlanks s)
    match skipBlanks r with
    | '.' :: r => do
      let (path, r) ← readPath fuel r
      pure (name :: path, r)
    | r => pure ([name], r)

/-- The depth to which lists and tables may be nested, and the number of dotted names. -/
def depthLimit : Nat := 79

/-- Names with dots between them, not too many. -/
def readKey (s : List Char) : Option (List String × List Char) := readPath depthLimit s

mutual

/-- A value. `fuel` bounds the number of values and `depth` their nesting. -/
def readValue : Nat → Nat → List Char → Option (Item × List Char)
  | 0, _, _ => none
  | fuel + 1, depth, s =>
    match s with
    | '"' :: _ => (readText s).map fun (text, r) => (.text text, r)
    | '\'' :: _ => (readText s).map fun (text, r) => (.text text, r)
    | '[' :: r =>
      match depth with
      | 0 => none
      | depth + 1 => (readItems fuel depth r).map fun (items, r) => (.list items, r)
    | '\x7b' :: r =>
      match depth with
      | 0 => none
      | depth + 1 =>
        match skipBlanks r with
        | '\x7d' :: r => some (.table [], r)
        | r => (readPairs fuel depth [] r).map fun (nodes, r) => (.table (itemsOf nodes), r)
    | _ => readWord s

/-- The items of a list after its bracket or a comma. -/
def readItems : Nat → Nat → List Char → Option (List Item × List Char)
  | 0, _, _ => none
  | fuel + 1, depth, s => do
    match ← skipLines (s.length + 1) s with
    | ']' :: r => pure ([], r)
    | s => do
      let (item, r) ← readValue fuel depth s
      match ← skipLines (r.length + 1) r with
      | ']' :: r => pure ([item], r)
      | ',' :: r => do
        let (items, r) ← readItems fuel depth r
        pure (item :: items, r)
      | _ => none

/-- The settings of a table on one line, before the first of which it holds some nodes. -/
def readPairs : Nat → Nat → Nodes → List Char → Option (Nodes × List Char)
  | 0, _, _, _ => none
  | fuel + 1, depth, nodes, s => do
    let (path, r) ← readKey s
    match skipBlanks r with
    | '=' :: r => do
      let (item, r) ← readValue fuel depth (skipBlanks r)
      let nodes ← set path item nodes
      match skipBlanks r with
      | '\x7d' :: r => pure (nodes, r)
      | ',' :: r => readPairs fuel depth nodes r
      | _ => none
    | _ => none

end

/-- A statement. -/
inductive Statement where
  | setting (path : List String) (item : Item)
  | header (path : List String)
  | nextHeader (path : List String)

/-- The statement at the start of a text. -/
def readStatement (s : List Char) : Option (Statement × List Char) :=
  match s with
  | '[' :: '[' :: r => do
    let (path, r) ← readKey r
    match r with
    | ']' :: ']' :: r => pure (.nextHeader path, r)
    | _ => none
  | '[' :: r => do
    let (path, r) ← readKey r
    match r with
    | ']' :: r => pure (.header path, r)
    | _ => none
  | _ => do
    let (path, r) ← readKey s
    match skipBlanks r with
    | '=' :: r => do
      let (item, r) ← readValue (s.length + 1) depthLimit (skipBlanks r)
      pure (.setting path item, r)
    | _ => none

/-- The statements of a text. `fuel` bounds their number. -/
def readStatements : Nat → List Char → Option (List Statement)
  | 0, _ => none
  | fuel + 1, s => do
    match ← skipLines (s.length + 1) s with
    | [] => pure []
    | s => do
      let (statement, r) ← readStatement s
      let r ← endLine r
      pure (statement :: (← readStatements fuel r))

/-- The nodes of a file and the path of the open table. -/
structure Building where
  nodes : Nodes
  table : List String

/-- A header carried out. -/
def Building.enter (b : Building) (path : List String)
    (change : String → Origin → Nodes → Option Nodes) : Option Building :=
  match path.getLast? with
  | none => none
  | some name =>
    (descend .implied (change name) path.dropLast .header b.nodes).map fun nodes => ⟨nodes, path⟩

/-- A statement carried out. -/
def Building.step (b : Building) : Statement → Option Building
  | .setting path item =>
    (descend .implied (fun _ nodes => set path item nodes) b.table .header b.nodes).map fun nodes =>
      { b with nodes := nodes }
  | .header path => b.enter path openTable
  | .nextHeader path => b.enter path openNext

/-- What a settings file says, if it has no fault. -/
def item? (text : String) : Option Item := do
  let s := match text.toList with
    | '\ufeff' :: r => r
    | s => s
  let statements ← readStatements (s.length + 1) s
  let built ← statements.foldlM Building.step ⟨[], []⟩
  pure (.table (itemsOf built.nodes))

end SuiteMetrics.Settings.Toml
