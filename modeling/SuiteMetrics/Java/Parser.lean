import SuiteMetrics.Java.Concrete

/-!
Parsers over the tokens of a Java source.

A parser takes tokens from the front of the rest of the source and gives the concrete trees of
what it took. Constructs that do not matter for scoring leave no node of their own: their parsers
give the trees inside them. A parser that fails takes nothing.
-/

namespace SuiteMetrics.Java

open Text (Span)

/-- The rest of a source: what is still to be read, and where the last token read stops. -/
structure Rest where
  tokens : List Token
  stop : Mark
  /-- How many tokens there are. -/
  count : Nat
  count_eq : count = tokens.length := by rfl

/-- A parser. -/
abbrev Parser := StateT Rest Option

/-- Concrete trees side by side. -/
abbrev Forest := List Concrete

namespace Parser

/-- The rest of the source. -/
def rest : Parser (List Token) := do pure (← get).tokens

/-- Where the next token starts; at the end, where the last one stops. -/
def here : Parser Mark := do
  let r ← get
  match r.tokens with
  | t :: _ => pure t.start
  | [] => pure r.stop

/-- Where the last token read stops. -/
def before : Parser Mark := do pure (← get).stop

/-- How many tokens are still to be read. -/
def remaining : Parser Nat := do pure (← get).count

/-- The next token is read. -/
def take : Parser Token := do
  match ← get with
  | ⟨t :: r, _, count, h⟩ => do
    set (⟨r, t.stop, count - 1, by simp [h]⟩ : Rest)
    pure t
  | ⟨[], _, _, _⟩ => failure

/-- Some tokens are read. -/
def skip : Nat → Parser Unit
  | 0 => pure ()
  | n + 1 => do
    let _ ← take
    skip n

/-- Whether a token of a list is a given word or symbol. -/
def tokenIs (tokens : List Token) (i : Nat) (text : String) : Bool :=
  match tokens[i]? with
  | some t => t.is text
  | none => false

/-- Whether the next token is a given word or symbol. -/
def sees (text : String) : Parser Bool := do pure (tokenIs (← rest) 0 text)

/-- Whether the next token is one of some words and symbols. -/
def seesAny (texts : List String) : Parser Bool := do
  match ← rest with
  | t :: _ => pure (texts.any t.is)
  | [] => pure false

/-- A given word or symbol is read. -/
def expect (text : String) : Parser Unit := do
  if ← sees text then skip 1 else failure

/-- A given word or symbol is read if it comes next. -/
def accept (text : String) : Parser Bool := do
  if ← sees text then
    skip 1
    pure true
  else pure false

/-- A parser that may fail, which then gives nothing. -/
def optional? {α : Type} (p : Parser α) : Parser (Option α) := (some <$> p) <|> pure none

/-- What a parser would give, without reading anything. -/
def lookahead {α : Type} (p : Parser α) : Parser (Option α) := fun r =>
  match p r with
  | some (x, _) => some (some x, r)
  | none => some (none, r)

/-- A parser for as long as a test holds. `fuel` bounds the number of rounds. -/
def repeatWhile (fuel : Nat) (test : Parser Bool) (p : Parser Forest) : Parser Forest :=
  match fuel with
  | 0 => pure []
  | fuel + 1 => do
    if ← test then
      let first ← p
      let more ← repeatWhile fuel test p
      pure (first ++ more)
    else pure []

/-- A parser for as long as a test holds; every round reads a token. -/
def many (test : Parser Bool) (p : Parser Forest) : Parser Forest := do
  repeatWhile ((← remaining) + 1) test p

/-- A parser again after each separator. -/
def separated (separator : String) (p : Parser Forest) : Parser Forest := do
  let first ← p
  let more ← many (sees separator) do
    expect separator
    p
  pure (first ++ more)

/-- Parts between an opening and a closing symbol, with commas between them; none of them need be
there. -/
def listed (opening closing : String) (p : Parser Forest) : Parser Forest := do
  expect opening
  if ← accept closing then pure []
  else
    let items ← separated "," p
    expect closing
    pure items

/-- The tree of a construct that starts at a mark and stops where the last token does. -/
def build (construct : Construct) (start : Mark) (name : Option Span) (children : Forest) :
    Parser Forest := do
  pure [⟨⟨construct, start, ← before, name⟩, children⟩]

/-- The tree of a construct that a parser reads. -/
def node (construct : Construct) (p : Parser Forest) : Parser Forest := do
  let start ← here
  let children ← p
  build construct start none children

end Parser

/-! ### Words -/

/-- The types that are keywords. -/
def primitives : List String :=
  ["boolean", "byte", "char", "double", "float", "int", "long", "short"]

/-- The words that begin an expression or stand in one, and so name nothing where one may stand.
The other keywords name nothing only where they begin something of their own. -/
def reserved : List String :=
  primitives ++
    ["void", "this", "super", "new", "switch", "true", "false", "null", "instanceof"]

/-- Whether a token is an identifier where an expression may stand. -/
def Token.isName (t : Token) : Bool := t.kind == .word && !reserved.contains t.text

/-- The words that are no identifiers after a dot. -/
def selectorWords : List String := ["new", "super", "this", "class"]

/-- Whether a token is an identifier after a dot. -/
def Token.isMemberName (t : Token) : Bool := t.kind == .word && !selectorWords.contains t.text

/-- Whether a token is one of some words and symbols. -/
def Token.isAny (t : Token) (texts : List String) : Bool := texts.any t.is

namespace Parser

/-- Whether the token at a place is an identifier. -/
def nameAt (tokens : List Token) (i : Nat) : Bool :=
  match tokens[i]? with
  | some t => t.isName
  | none => false

/-- Whether the tokens at a place are a dot and an identifier. -/
def dotNameAt (tokens : List Token) (i : Nat) : Bool :=
  tokenIs tokens i "." && (tokens[i + 1]?.map Token.isMemberName).getD false

/-- Whether an identifier comes next. -/
def seesName : Parser Bool := do pure (nameAt (← rest) 0)

/-- Whether a word comes next. -/
def seesWord : Parser Bool := do pure ((← rest).head?.any fun t => t.kind == .word)

/-- An identifier is read where an expression could stand instead. -/
def name : Parser Token := do
  let t ← take
  if t.isName then pure t else failure

/-- An identifier is read where only an operator could stand instead: any word but that. -/
def declaredName : Parser Token := do
  let t ← take
  if t.kind == .word && t.text != "instanceof" then pure t else failure

/-- The bytes of a token. -/
def bytes (t : Token) : Span := ⟨t.start.offset, t.stop.offset⟩

/-- Identifiers with dots between them are read: the bytes from the first to the last. -/
def dotted : Parser Span := do
  let first ← name
  let _ ← many (do pure (dotNameAt (← rest) 0)) do
    skip 2
    pure []
  pure ⟨first.start.offset, (← before).offset⟩

/-- Whether a parenthesis comes next whose closing one is followed by an arrow. -/
def arrowAfterParenthesis (tokens : List Token) : Bool :=
  go 0 tokens
where
  /-- The same with some parentheses open. -/
  go (depth : Nat) : List Token → Bool
    | [] => false
    | t :: r =>
      if t.is "(" then go (depth + 1) r
      else if t.is ")" then
        if depth ≤ 1 then
          match r with
          | arrow :: _ => arrow.is "->"
          | [] => false
        else go (depth - 1) r
      else if depth = 0 then false
      else go depth r

/-- Whether a lambda expression begins. -/
def startsLambda (tokens : List Token) : Bool :=
  (nameAt tokens 0 && tokenIs tokens 1 "->") ||
    (tokenIs tokens 0 "(" && arrowAfterParenthesis tokens)

end Parser

end SuiteMetrics.Java
