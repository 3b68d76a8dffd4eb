/-!
Tokens of Java source.

A source is cut into words, literals and symbols; blanks and comments between them are skipped.
Every token knows where it starts and stops. A closing angle bracket is always a token of its own,
because two of them may close two type argument lists; operators that consist of several are put
together where an operator is expected, if they stand side by side (`Token.touches`).
-/

namespace SuiteMetrics.Java

/-- A position in a source: the byte offset, the row and the byte column in it, all from zero. -/
structure Mark where
  offset : Nat
  row : Nat
  column : Nat
  deriving DecidableEq, Repr, Inhabited

/-- The position after a character. -/
def Mark.after (m : Mark) (c : Char) : Mark :=
  if c = '\n' then ⟨m.offset + 1, m.row + 1, 0⟩
  else ⟨m.offset + c.utf8Size, m.row, m.column + c.utf8Size⟩

/-- The position after some characters. -/
def Mark.afterAll (m : Mark) (s : List Char) : Mark := s.foldl Mark.after m

/-- What a token is. -/
inductive TokenKind where
  /-- An identifier or a keyword. -/
  | word
  | literal
  | symbol
  /-- What is no token of the language. -/
  | illegal
  deriving DecidableEq, Repr

/-- A token and where it stands. -/
structure Token where
  kind : TokenKind
  text : String
  start : Mark
  stop : Mark
  deriving Repr

/-- Whether a token is a given word or symbol. -/
def Token.is (t : Token) (text : String) : Bool :=
  (t.kind == .word || t.kind == .symbol) && t.text == text

/-- Whether a token starts where another one stops. -/
def Token.touches (t other : Token) : Bool := t.stop.offset == other.start.offset

/-! ### Characters -/

/-- The blanks between tokens. -/
def isBlank (c : Char) : Bool :=
  c == ' ' || c == '\t' || c == '\n' || c == '\r' || c == '\x0b' || c == '\x0c'

/-- Characters beyond ASCII that stand in no identifier: punctuation, symbols, pictures and private
characters. -/
def isForeignSymbol (code : Nat) : Bool :=
  (0x80 ≤ code && code ≤ 0xBF && code != 0xAA && code != 0xB5 && code != 0xBA) ||
  code == 0xD7 || code == 0xF7 || (0x2000 ≤ code && code ≤ 0x2070) ||
  (0x20A0 ≤ code && code ≤ 0x2BFF && !(0x2100 ≤ code && code ≤ 0x2188)) ||
  (0x3000 ≤ code && code ≤ 0x3004) || (0xE000 ≤ code && code ≤ 0xF8FF) ||
  (0xFE10 ≤ code && code ≤ 0xFE1F) || (0xFF00 ≤ code && code ≤ 0xFF0F) || code == 0xFEFF ||
  code == 0xFFFD || (0x1F000 ≤ code && code ≤ 0x1FAFF)

/-- Whether a character may begin an identifier. -/
def isWordStart (c : Char) : Bool :=
  c.isAlpha || c == '_' || c == '$' || (c.toNat ≥ 0x80 && !isForeignSymbol c.toNat)

/-- Whether a character may continue an identifier. -/
def isWordPart (c : Char) : Bool := isWordStart c || c.isDigit

/-! ### Parts of a source -/

/-- The length of the rest of a line. -/
def lineLength (s : List Char) : Nat := (s.takeWhile (· != '\n')).length

/-- The length of a block comment after its opener, if it is closed. -/
def commentLength? : List Char → Option Nat
  | '*' :: '/' :: _ => some 2
  | _ :: r => (commentLength? r).map (· + 1)
  | [] => none

/-- Whether a character is a hexadecimal digit. -/
def isHexDigit (c : Char) : Bool :=
  c.isDigit || ('a' ≤ c && c ≤ 'f') || ('A' ≤ c && c ≤ 'F')

/-- Whether an escape sequence is complete after its backslash. -/
def startsEscape : List Char → Bool
  | 'x' :: r => (r.takeWhile isHexDigit).length ≥ 2
  | 'u' :: '\x7b' :: r =>
    let digits := (r.takeWhile isHexDigit).length
    digits ≥ 1 && r[digits]? == some '\x7d'
  | 'u' :: r => (r.takeWhile isHexDigit).length ≥ 4
  | _ => true

/-- The length of a string after its opening quote, if it is closed; it may go over several
lines. -/
def stringLength? : List Char → Option Nat
  | '\\' :: c :: r => if startsEscape (c :: r) then (stringLength? r).map (· + 2) else none
  | c :: r => if c = '"' then some 1 else (stringLength? r).map (· + 1)
  | [] => none

/-- The length of a text block after its opening quotes, if it is closed. -/
def blockLength? : List Char → Option Nat
  | '\\' :: c :: r => if startsEscape (c :: r) then (blockLength? r).map (· + 2) else none
  | '"' :: '"' :: '"' :: _ => some 3
  | _ :: r => (blockLength? r).map (· + 1)
  | [] => none

/-- The length of the rest of a character literal, if it is closed on its line. -/
def characterRest? : List Char → Option Nat
  | '\\' :: _ :: r => (characterRest? r).map (· + 2)
  | c :: r =>
    if c = '\'' then some 1
    else if c = '\n' then none
    else (characterRest? r).map (· + 1)
  | [] => none

/-- The length of a character literal after its opening quote; it has at least one character. -/
def characterLength? (s : List Char) : Option Nat :=
  if s.head? = some '\'' then none else characterRest? s

/-! ### Numbers -/

/-- The length of digits in groups with underscores between them. -/
def digitsLength (isDigit : Char → Bool) (s : List Char) : Nat :=
  if (s.head?.map isDigit).getD false then
    ((s.takeWhile fun c => isDigit c || c == '_').reverse.dropWhile (· == '_')).length
  else 0

/-- The length of a letter that may end a number. -/
def suffixLength (letters : String) : List Char → Nat
  | c :: _ => if letters.toList.contains c then 1 else 0
  | [] => 0

/-- The length of an exponent that one of some letters introduces, with or without a sign. -/
def exponentLength (letters : String) (s : List Char) : Nat :=
  if suffixLength letters s = 0 then 0
  else
    let sign := suffixLength "+-" (s.drop 1)
    match digitsLength Char.isDigit (s.drop (1 + sign)) with
    | 0 => 0
    | digits => 1 + sign + digits

/-- The length of parts one after another, each of which may be missing. -/
def partsLength : List (List Char → Nat) → List Char → Nat
  | [], _ => 0
  | part :: more, s => part s + partsLength more (s.drop (part s))

/-- The length of a decimal number: an integer, or one with a point, an exponent or a letter. -/
def decimalLength (s : List Char) : Nat :=
  let whole := digitsLength Char.isDigit s
  let after := s.drop whole
  let fraction := match after with
    | '.' :: r =>
      if whole = 0 && digitsLength Char.isDigit r = 0 then 0
      else 1 + partsLength
        [digitsLength Char.isDigit, exponentLength "eE", suffixLength "fFdD"] r
    | _ => 0
  if whole = 0 then fraction
  else
    whole + max fraction (max (suffixLength "lL" after)
      (partsLength [exponentLength "eEpP", suffixLength "fFdD"] after))

/-- The length of what may follow hexadecimal digits, the last of which may itself introduce an
exponent with a sign if there are at least so many. -/
def hexadecimalEnd (least : Nat) (digits after : List Char) : Nat :=
  let signed := match digits.getLast? with
    | some c => (c == 'e' || c == 'E') && least ≤ digits.length && suffixLength "+-" after = 1
    | none => false
  let exponent := digitsLength Char.isDigit (after.drop 1)
  if signed && exponent ≠ 0 then
    1 + exponent + suffixLength "fFdD" (after.drop (1 + exponent))
  else partsLength [exponentLength "pP", suffixLength "fFdD"] after

/-- The length of a hexadecimal number after `0x`. -/
def hexadecimalLength (s : List Char) : Nat :=
  let whole := digitsLength isHexDigit s
  let after := s.drop whole
  match after with
  | '.' :: r =>
    let fraction := digitsLength isHexDigit r
    if whole + fraction = 0 then 0
    else
      whole + 1 + fraction +
        hexadecimalEnd (if whole = 0 then 2 else 1) (r.take fraction) (r.drop fraction)
  | _ =>
    if whole = 0 then 0
    else whole + max (suffixLength "lL" after) (hexadecimalEnd 2 (s.take whole) after)

/-- The length of a number in another base after its two first characters. -/
def basedLength (isDigit : Char → Bool) (s : List Char) : Nat :=
  match digitsLength isDigit s with
  | 0 => 0
  | digits => digits + suffixLength "lL" (s.drop digits)

/-- The length of the number at the start of a text. -/
def numberLength (s : List Char) : Nat :=
  let based := match s with
    | '0' :: c :: r =>
      if c == 'x' || c == 'X' then hexadecimalLength r
      else if c == 'b' || c == 'B' then basedLength (fun c => c == '0' || c == '1') r
      else if c == 'o' || c == 'O' then basedLength (fun c => '0' ≤ c && c ≤ '7') r
      else 0
    | _ => 0
  if based = 0 then decimalLength s else based + 2

/-! ### Symbols and words -/

/-- The symbols of more than one character, longer ones before their beginnings. -/
def longSymbols : List String :=
  ["<<=", "...", "->", "::", "++", "--", "&&", "||", "==", "!=", "<=", "+=", "-=", "*=", "/=",
    "&=", "|=", "^=", "%=", "<<"]

/-- The length of the symbol at the start of a text, and zero if there is none. -/
def symbolLength (s : List Char) : Nat :=
  match longSymbols.find? fun symbol => symbol.toList.isPrefixOf s with
  | some symbol => symbol.length
  | none =>
    match s with
    | c :: _ => if "()\x7b\x7d[];,.@=<>!~?:+-*/&|^%".toList.contains c then 1 else 0
    | [] => 0

/-- What stands at the start of a text: how long it is, and which token it is if it is one. -/
def lexeme (s : List Char) : Nat × Option TokenKind :=
  match s with
  | [] => (0, none)
  | '/' :: '/' :: r => (lineLength r + 2, none)
  | '/' :: '*' :: r =>
    match commentLength? r with
    | some n => (n + 2, none)
    | none => (1, some .illegal)
  | '"' :: '"' :: '"' :: r =>
    match blockLength? r with
    | some n => (n + 3, some .literal)
    | none => (1, some .illegal)
  | c :: r =>
    if isBlank c then (1, none)
    else if isWordStart c then ((r.takeWhile isWordPart).length + 1, some .word)
    else if c == '"' then closed (stringLength? r)
    else if c == '\'' then closed (characterLength? r)
    else if numberLength (c :: r) ≠ 0 then (numberLength (c :: r), some .literal)
    else
      match symbolLength (c :: r) with
      | 0 => (1, some .illegal)
      | n => (n, some .symbol)
where
  /-- A literal whose rest after its opening quote has a length, if it is closed. -/
  closed : Option Nat → Nat × Option TokenKind
    | some n => (n + 1, some .literal)
    | none => (1, some .illegal)

/-! ### Whole sources -/

/-- A source cut into tokens. -/
structure Scan where
  tokens : List Token
  /-- Where the first token or comment starts; the end of a source without any. -/
  first : Mark
  /-- The end of the source. -/
  last : Mark

/-- The tokens of a text that starts at a mark. `fuel` bounds its length. -/
def scanFrom : Nat → Mark → List Char → List Token
  | 0, _, _ => []
  | fuel + 1, start, s =>
    if s.isEmpty then []
    else
      let (length, kind) := lexeme s
      let text := s.take length
      let stop := start.afterAll text
      let rest := scanFrom fuel stop (s.drop length)
      match kind with
      | none => rest
      | some kind => ⟨kind, String.ofList text, start, stop⟩ :: rest

/-- The tokens of a whole source, in which a byte order mark may come first. -/
def Scan.ofSource (source : List Char) : Scan :=
  let (bom, s) := match source with
    | '\ufeff' :: r => (['\ufeff'], r)
    | s => ([], s)
  let start := Mark.afterAll ⟨0, 0, 0⟩ bom
  let first := start.afterAll (s.takeWhile isBlank)
  ⟨scanFrom (s.length + 1) start s, first, start.afterAll s⟩

end SuiteMetrics.Java
