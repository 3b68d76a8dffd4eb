import SuiteMetrics.Decimal.Reader
import SuiteMetrics.Json.Document
import SuiteMetrics.Settings.Item
import SuiteMetrics.Text.Blank
import SuiteMetrics.Text.Find

/-!
Settings in variables of the environment.

A variable sets the setting whose path its name spells behind a common beginning, in any case, with
two underscores or a dot between section and setting. Its value is read as a list in brackets, a
table in braces, a text in quotes, a number or a truth value; whatever is none of these is a text as
it stands.
-/

namespace SuiteMetrics.Settings.Variable

/-- The beginning of the names of variables that set something. -/
def beginning : String := "CXLENS_"

/-! ### Values -/

/-- Blanks between the parts of a value. -/
def isBlank (c : Char) : Bool :=
  c == ' ' || c == '\t' || c == '\n' || c == '\r' || c == '\x0c'

/-- The text after the blanks at its start. -/
def skipBlanks (s : List Char) : List Char := s.dropWhile isBlank

/-- Characters that end a plain text. -/
def isSeparator (c : Char) : Bool :=
  c == ',' || c == '\x7b' || c == '\x7d' || c == '[' || c == ']'

/-- Characters of a name without quotes. -/
def isNameChar (c : Char) : Bool := c.isAlphanum || c == '_' || c == '-'

/-- The rest of a text in quotes, with its escapes still in it. -/
def readQuoted (done : List Char) : List Char → Option (List Char × List Char)
  | [] => none
  | '"' :: r => some (done.reverse, r)
  | ['\\'] => none
  | '\\' :: c :: r => readQuoted (c :: '\\' :: done) r
  | c :: r => readQuoted (c :: done) r

/-- The character with a hexadecimal number. -/
def scalar? (digits : List Char) : Option Char := do
  let values ← digits.mapM Json.hexValue?
  let n := values.foldl (fun n d => n * 16 + d) 0
  if n < 0xD800 ∨ (0xDFFF < n ∧ n < 0x110000) then some (Char.ofNat n) else none

/-- The character of an escape with one letter. -/
def escaped? : Char → Option Char
  | 'b' => some '\x08'
  | 't' => some '\t'
  | 'n' => some '\n'
  | 'f' => some '\x0c'
  | 'r' => some '\r'
  | '"' => some '"'
  | '\\' => some '\\'
  | _ => none

/-- A text with its escapes resolved. -/
def unescape? : List Char → Option (List Char)
  | [] => some []
  | '\\' :: 'u' :: a :: b :: c :: d :: r => do
    pure ((← scalar? [a, b, c, d]) :: (← unescape? r))
  | '\\' :: 'U' :: a :: b :: c :: d :: e :: f :: g :: h :: r => do
    pure ((← scalar? [a, b, c, d, e, f, g, h]) :: (← unescape? r))
  | '\\' :: c :: r => do pure ((← escaped? c) :: (← unescape? r))
  | c :: r =>
    if c == '\t' || (0x20 ≤ c.toNat && c.toNat != 0x7F && c != '\\') then
      (unescape? r).map (c :: ·)
    else none

/-- A text in quotes after its first quote. -/
def readText (s : List Char) : Option (String × List Char) := do
  let (inside, r) ← readQuoted [] s
  pure (String.ofList (← unescape? inside), r)

/-- Whether a text is a whole number of 64 bits. -/
def isWhole (s : List Char) : Bool :=
  let value (digits : List Char) : Option Nat :=
    if digits.isEmpty || !digits.all Decimal.isDigit then none
    else some (Decimal.digitsValue digits)
  let below (limit : Nat) (digits : List Char) : Bool :=
    ((value digits).map fun n => decide (n ≤ limit)).getD false
  match s with
  | '-' :: r => below (Nat.pow 2 63) r
  | '+' :: r => below (Nat.pow 2 64 - 1) r
  | _ => below (Nat.pow 2 64 - 1) s

/-- What a text without quotes stands for. -/
def plain (s : List Char) : Item :=
  if (s.contains '.' && (Decimal.readFloat? s).isSome) || isWhole s then .scalar
  else .text (String.ofList s)

/-- A text after a word, if it starts with that word. -/
def afterWord? (word : String) (s : List Char) : Option (List Char) :=
  if word.toList.isPrefixOf s then some (s.drop word.length) else none

/-- The name of an entry of a table. -/
def readName (s : List Char) : Option (String × List Char) :=
  match s with
  | '"' :: r => readText r
  | _ =>
    match s.span isNameChar with
    | ([], _) => none
    | (name, r) => some (String.ofList name, r)

mutual

/-- A value and the blanks around it. `fuel` bounds the number of values. -/
def readValue : Nat → List Char → Option (Item × List Char)
  | 0, _ => none
  | fuel + 1, s => do
    let s := skipBlanks s
    let (item, r) ←
      match afterWord? "true" s, afterWord? "false" s, s with
      | some r, _, _ => some (.scalar, r)
      | _, some r, _ => some (.scalar, r)
      | _, _, '\x7b' :: r => (readEntries fuel [] r).map fun (entries, r) => (.table entries, r)
      | _, _, '[' :: r => (readItems fuel r).map fun (items, r) => (.list items, r)
      | _, _, '"' :: r => (readText r).map fun (text, r) => (.text text, r)
      | _, _, '\'' :: c :: '\'' :: r => some (.text (String.singleton c), r)
      | _, _, '\'' :: _ => none
      | _, _, s =>
        let word := s.takeWhile fun c => !isSeparator c
        some (plain (Text.trim word), s.drop word.length)
    pure (item, skipBlanks r)

/-- The items of a list after its bracket or a comma. -/
def readItems : Nat → List Char → Option (List Item × List Char)
  | 0, _ => none
  | fuel + 1, s =>
    match s with
    | ']' :: r => some ([], r)
    | s => do
      let (item, r) ← readValue fuel s
      match r with
      | ']' :: r => pure ([item], r)
      | ',' :: r => do
        let (items, r) ← readItems fuel r
        pure (item :: items, r)
      | _ => none

/-- The entries of a table after its brace or a comma; a later entry takes the place of an earlier
one of the same name. -/
def readEntries : Nat → Item.Entries → List Char → Option (Item.Entries × List Char)
  | 0, _, _ => none
  | fuel + 1, entries, s =>
    match s with
    | '\x7d' :: r => some (entries, r)
    | s => do
      let (name, r) ← readName (skipBlanks s)
      match skipBlanks r with
      | '=' :: r => do
        let (item, r) ← readValue fuel r
        let entries := Item.put name item entries
        match r with
        | '\x7d' :: r => pure (entries, r)
        | ',' :: r => readEntries fuel entries r
        | _ => none
      | _ => none

end

/-- What the value of a variable stands for. -/
def value (s : String) : Item :=
  match readValue (s.length + 2) s.toList with
  | some (item, []) => item
  | _ => .text s

/-! ### Names -/

/-- A text with a dot for every two underscores. -/
def dots : List Char → List Char
  | '_' :: '_' :: r => '.' :: dots r
  | c :: r => c :: dots r
  | [] => []

/-- The path that the name of a variable spells, if it has the common beginning and no part of the
path is empty. -/
def path? (name : String) : Option (List String) :=
  let lower := (Text.trim name.toList).map Char.toLower
  let start := beginning.toList.map Char.toLower
  if start.isPrefixOf lower then
    let parts := Text.splitAt '.' (dots (Text.trim (lower.drop start.length)))
    if parts.any List.isEmpty then none else some (parts.map String.ofList)
  else none

/-- What some variables set, one after the other. -/
def item (environment : List (String × String)) : Item :=
  Item.stack (environment.filterMap fun (name, text) => (path? name).map (Item.nest (value text)))

end SuiteMetrics.Settings.Variable
