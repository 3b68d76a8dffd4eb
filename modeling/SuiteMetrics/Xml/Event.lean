import SuiteMetrics.Text.Blank
import SuiteMetrics.Text.Find

/-!
The events of a markup text.

A text is cut into tags, pieces of character data between them, CDATA sections, and parts that say
nothing about the content: comments, processing instructions and a document type. Pieces of
character data are trimmed, and empty ones are no events. Reading stops at the first fault, such
as an open comment or an end tag that does not match, and says that it did; an element that is
still open at the end of the text is no fault here, but can be told from the events.
-/

namespace SuiteMetrics.Xml

open Text (isMarkupBlank)

/-- What a markup text consists of. -/
inductive Event where
  /-- A start tag: its name and the text between the name and the closing bracket. -/
  | opening (name attributes : List Char)
  /-- A tag that opens and closes an element at once. -/
  | empty (name attributes : List Char)
  /-- An end tag. -/
  | closing (name : List Char)
  /-- A trimmed piece of character data, with its references as written. -/
  | text (raw : List Char)
  /-- The inside of a CDATA section. -/
  | cdata (raw : List Char)
  /-- A comment, a processing instruction or a document type. -/
  | silent
  deriving DecidableEq, Repr

/-- The events of a text up to its end or its first fault. -/
structure Events where
  events : List Event
  /-- Whether the end of the text was reached without a fault. -/
  complete : Bool

/-- The part of a qualified name after its first colon. -/
def localName (name : List Char) : List Char :=
  match Text.splitFirst ':' name with
  | some (_, r) => r
  | none => name

/-! ### Where markup ends -/

/-- The text before the first occurrence of a mark, and the text after it. -/
def cutAt (mark : List Char) (s : List Char) : Option (List Char × List Char) :=
  go [] s
where
  /-- The cut of `before.reverse ++ s`, in which the mark does not end before `s` begins. -/
  go (before : List Char) : List Char → Option (List Char × List Char)
    | [] => none
    | c :: r =>
      if mark.isPrefixOf (c :: r) then some (before.reverse, (c :: r).drop mark.length)
      else go (c :: before) r

/-- A tag up to its closing bracket, which does not count inside quotes. `quote` is the quote that
is open. -/
def cutTag (quote : Option Char) (before : List Char) : List Char → Option (List Char × List Char)
  | [] => none
  | c :: r =>
    match quote with
    | some q => cutTag (if c = q then none else some q) (c :: before) r
    | none =>
      if c = '>' then some (before.reverse, r)
      else cutTag (if c = '"' ∨ c = '\'' then some c else none) (c :: before) r

/-- A document type up to its closing bracket, where brackets inside it pair up. -/
def cutDocumentType (depth : Nat) (before : List Char) :
    List Char → Option (List Char × List Char)
  | [] => none
  | c :: r =>
    if c = '<' then cutDocumentType (depth + 1) (c :: before) r
    else if c = '>' then
      if depth = 0 then some (before.reverse, r)
      else cutDocumentType (depth - 1) (c :: before) r
    else cutDocumentType depth (c :: before) r

/-- Whether a text starts with a word in any case. -/
def startsWithWord (word : List Char) (s : List Char) : Bool :=
  word.length ≤ s.length && (s.take word.length).map Char.toUpper == word

/-! ### Markup -/

/-- The event of a tag's inside. -/
def tagEvent (inside : List Char) : Event :=
  match inside.reverse with
  | '/' :: back =>
    let inside := back.reverse
    .empty (inside.takeWhile (!isMarkupBlank ·)) (inside.dropWhile (!isMarkupBlank ·))
  | _ => .opening (inside.takeWhile (!isMarkupBlank ·)) (inside.dropWhile (!isMarkupBlank ·))

/-- The event that begins after an opening bracket, and the text after it. -/
def markup? (s : List Char) : Option (Event × List Char) :=
  match s with
  | [] => none
  | '!' :: '-' :: r =>
    match r with
    | '-' :: r => (cutAt ['-', '-', '>'] r).map fun (_, r) => (.silent, r)
    | _ => none
  | '!' :: '[' :: r =>
    if startsWithWord "CDATA[".toList r then
      (cutAt [']', ']', '>'] (r.drop 6)).map fun (inside, r) => (.cdata inside, r)
    else none
  | '!' :: r =>
    if startsWithWord "DOCTYPE".toList r then
      match cutDocumentType 0 [] (r.drop 7) with
      | some (inside, r) => if inside.all isMarkupBlank then none else some (.silent, r)
      | none => none
    else none
  | '/' :: r =>
    (cutTag none [] r).map fun (inside, r) =>
      (.closing (if inside.all isMarkupBlank then inside
        else Text.dropEndWhile isMarkupBlank inside), r)
  | '?' :: '>' :: _ => none
  | '?' :: r => (cutAt ['?', '>'] r).map fun (_, r) => (.silent, r)
  | s => (cutTag none [] s).map fun (inside, r) => (tagEvent inside, r)

/-- The names of the open elements after an event, the innermost first; none when an end tag does
not match. -/
def openAfter? (names : List (List Char)) : Event → Option (List (List Char))
  | .opening name _ => some (name :: names)
  | .closing name =>
    match names with
    | open_ :: rest => if open_ = name then some rest else none
    | [] => none
  | _ => some names

/-- The events of a text inside some open elements. `fuel` bounds the length of the text. -/
def eventsFrom : Nat → List (List Char) → List Char → Events
  | 0, _, _ => ⟨[], false⟩
  | fuel + 1, names, s =>
    let (data, r) := s.span (· != '<')
    let piece := Text.trimBy isMarkupBlank data
    let before := if piece.isEmpty then [] else [Event.text piece]
    match r with
    | [] => ⟨before, true⟩
    | _ :: r =>
      match markup? r with
      | none => ⟨before, false⟩
      | some (event, r) =>
        match openAfter? names event with
        | none => ⟨before, false⟩
        | some names =>
          let rest := eventsFrom fuel names r
          ⟨before ++ event :: rest.events, rest.complete⟩

/-- The events of a whole text, in which a byte order mark may come first. -/
def events (s : List Char) : Events :=
  let s := match s with
    | '\ufeff' :: r => r
    | s => s
  eventsFrom (s.length + 1) [] s

/-! ### References -/

/-- The value of a digit in a base. -/
def digitIn? (base : Nat) (c : Char) : Option Nat :=
  let value :=
    if '0' ≤ c && c ≤ '9' then c.toNat - '0'.toNat
    else if 'a' ≤ c && c ≤ 'z' then c.toNat - 'a'.toNat + 10
    else if 'A' ≤ c && c ≤ 'Z' then c.toNat - 'A'.toNat + 10
    else base
  if value < base then some value else none

/-- The value of digits in a base, at least one of them. -/
def numeral? (base : Nat) (ds : List Char) : Option Nat :=
  if ds.isEmpty then none
  else ds.foldlM (fun n c => (digitIn? base c).map (base * n + ·)) 0

/-- The character with a code, which is not zero and no half of a surrogate pair. -/
def character? (code : Nat) : Option Char :=
  if h : code.isValidChar then
    if code = 0 then none else some (Char.ofNatAux code h)
  else none

/-- What a reference stands for: one of the five named characters, or a character by number. -/
def reference? (name : List Char) : Option Char :=
  match name with
  | '#' :: 'x' :: ds => (numeral? 16 ds).bind character?
  | '#' :: ds => (numeral? 10 ds).bind character?
  | _ =>
    match String.ofList name with
    | "lt" => some '<'
    | "gt" => some '>'
    | "amp" => some '&'
    | "apos" => some '\''
    | "quot" => some '"'
    | _ => none

/-- Character data with its references replaced. A reference ends with a semicolon, which comes
before the next ampersand. `name` is the reference that is open, backwards. -/
def unescapeFrom (done : List Char) (name : Option (List Char)) : List Char → Option (List Char)
  | [] => if name.isNone then some done.reverse else none
  | c :: r =>
    match name with
    | none => if c = '&' then unescapeFrom done (some []) r else unescapeFrom (c :: done) none r
    | some name =>
      if c = '&' then none
      else if c = ';' then
        match reference? name.reverse with
        | some replaced => unescapeFrom (replaced :: done) none r
        | none => none
      else unescapeFrom done (some (c :: name)) r

/-- Character data with its references replaced, if all of them stand for something. -/
def unescape? (raw : List Char) : Option (List Char) := unescapeFrom [] none raw

/-! ### Attributes -/

/-- The first attribute of a tag: its name, its value as written, and the text after it. -/
inductive FirstAttribute where
  | none
  | fault
  | found (name value rest : List Char)

/-- The first attribute in the text after a tag's name: a name, an equals sign and a value in
quotes, with blanks between them as one likes. -/
def firstAttribute (s : List Char) : FirstAttribute :=
  match s.dropWhile isMarkupBlank with
  | [] => .none
  | c :: r =>
    let inName (c : Char) : Bool := c != '=' && !isMarkupBlank c
    let name := c :: r.takeWhile inName
    match (r.dropWhile inName).dropWhile isMarkupBlank with
    | '=' :: r =>
      match r.dropWhile isMarkupBlank with
      | q :: r =>
        if q = '"' ∨ q = '\'' then
          match Text.splitFirst q r with
          | some (value, rest) => .found name value rest
          | none => .fault
        else .fault
      | [] => .fault
    | _ => .fault

/-- What looking for an attribute gives. -/
inductive Lookup where
  | absent
  | fault
  | value (s : List Char)

/-- The attribute with a local name. The attributes before it must be well written and have
different names; those after it do not count. `fuel` bounds the length of the text. -/
def lookupFrom (sought : List Char) : Nat → List (List Char) → List Char → Lookup
  | 0, _, _ => .fault
  | fuel + 1, seen, s =>
    match firstAttribute s with
    | .none => .absent
    | .fault => .fault
    | .found name value rest =>
      if seen.contains name then .fault
      else if localName name = sought then
        match unescape? value with
        | some value => .value value
        | none => .fault
      else lookupFrom sought fuel (name :: seen) rest

/-- The attribute with a local name in the text after a tag's name. -/
def lookup (sought : String) (attributes : List Char) : Lookup :=
  lookupFrom sought.toList (attributes.length + 1) [] attributes

end SuiteMetrics.Xml
