import SuiteMetrics.Failure
import SuiteMetrics.Text.Utf8

/-!
File patterns.

`*` stands for any number of characters and `?` for one, `[a-z]` for one of a class and `[!a-z]`
for one outside it, `\x7ba,b\x7d` for one of several patterns; a backslash takes the next character
as it is. Two stars stand for whole directories where they fill the space between slashes, or the
beginning or end of the pattern. A pattern is matched against the bytes of a whole path, and a
character that takes several bytes counts as several. Depending on the use of a pattern, `*` and
`?` stop at slashes or not.
-/

namespace SuiteMetrics.Files

open Text.Utf8 (Bytes)

/-- A part of a pattern. -/
inductive GlobPart where
  | literal (c : Char)
  /-- One byte. -/
  | any
  /-- Any number of bytes. -/
  | many
  /-- Any directories before what follows. -/
  | directoriesBefore
  /-- Everything below a directory. -/
  | everythingBelow
  /-- A slash, or directories between two slashes. -/
  | directoriesBetween
  /-- One byte of a class, or outside it. -/
  | oneOf (negated : Bool) (ranges : List (Char × Char))
  /-- One of several patterns; without any, nothing. -/
  | alternates (branches : List (List GlobPart))
  deriving Inhabited

/-! ### Reading -/

/-- A class of characters that is being read. -/
structure OpenClass where
  negated : Bool
  /-- The ranges so far, the last one first. -/
  ranges : List (Char × Char)
  /-- Whether a dash has been read that may join the last character to the next. -/
  joining : Bool

namespace OpenClass

/-- The class with one more character. -/
def add (k : OpenClass) (c : Char) : Except GlobFault OpenClass :=
  match k.joining, k.ranges with
  | true, (low, _) :: rest =>
    if c < low then .error (.invalidRange low c)
    else .ok { k with ranges := (low, c) :: rest, joining := false }
  | _, _ => .ok { k with ranges := (c, c) :: k.ranges, joining := false }

/-- The finished class. A dash at its end stands for itself. -/
def part (k : OpenClass) : GlobPart :=
  let ranges := if k.joining then ('-', '-') :: k.ranges else k.ranges
  .oneOf k.negated ranges.reverse

/-- The class after a character: finished, or still open. -/
def step (k : OpenClass) (c : Char) : Except GlobFault (Option OpenClass) :=
  if c = ']' ∧ !k.ranges.isEmpty then .ok none
  else if c = '-' ∧ !k.ranges.isEmpty ∧ !k.joining then .ok (some { k with joining := true })
  else (k.add c).map some

end OpenClass

/-- A pattern that is being read: the parts of the innermost alternate so far, the last one first;
and for every open group, the parts before it and its finished alternates. -/
structure OpenGlob where
  parts : List GlobPart
  groups : List (List GlobPart × List (List GlobPart))

namespace OpenGlob

/-- Before the first character. -/
def start : OpenGlob := ⟨[], []⟩

/-- The pattern with one more part. -/
def push (g : OpenGlob) (part : GlobPart) : OpenGlob := { g with parts := part :: g.parts }

/-- Two stars that do not stand for directories. -/
def pushStars (g : OpenGlob) : OpenGlob := (g.push .many).push .many

/-- A group is opened. -/
def openGroup (g : OpenGlob) : OpenGlob := ⟨[], (g.parts, []) :: g.groups⟩

/-- The next alternate of a group; outside a group a comma stands for itself. -/
def nextAlternate (g : OpenGlob) : OpenGlob :=
  match g.groups with
  | [] => g.push (.literal ',')
  | (before, done) :: rest => ⟨[], (before, g.parts.reverse :: done) :: rest⟩

/-- Whether an alternate says nothing at all. -/
def saysNothing (branch : List GlobPart) : Bool :=
  branch.all fun part =>
    match part with
    | .alternates [] => true
    | _ => false

/-- A group is closed. Alternates that say nothing are dropped. -/
def closeGroup (g : OpenGlob) : Except GlobFault OpenGlob :=
  match g.groups with
  | [] => .error .unopenedAlternates
  | (before, done) :: rest =>
    let branches := (g.parts.reverse :: done).reverse.filter fun branch => !saysNothing branch
    .ok ⟨.alternates branches :: before, rest⟩

/-- Whether two stars after a character may stand for directories. -/
def opensDirectories (g : OpenGlob) (previous : Option Char) : Bool :=
  previous == some '/' || (!g.groups.isEmpty && (previous == some ',' || previous == some '\x7b'))

/-- Two stars take the place of the part before them, which was a slash, unless that stands for
directories already. -/
def replaceLast (g : OpenGlob) (part : GlobPart) : OpenGlob :=
  match g.parts with
  | .directoriesBefore :: _ => g
  | .everythingBelow :: _ => g
  | _ :: rest => { g with parts := part :: rest }
  | [] => g

/-- Two stars and a slash after them. -/
def starsSlash (g : OpenGlob) (previous : Option Char) : OpenGlob :=
  if g.parts.isEmpty then g.push .directoriesBefore
  else if g.opensDirectories previous then g.replaceLast .directoriesBetween
  else g.pushStars.push (.literal '/')

/-- Two stars before a character that is no slash, or at the end. -/
def stars (g : OpenGlob) (previous next : Option Char) : OpenGlob :=
  if g.parts.isEmpty then if next.isNone then g.push .directoriesBefore else g.pushStars
  else
    let atEnd := next.isNone || (!g.groups.isEmpty && (next == some ',' || next == some '\x7d'))
    if g.opensDirectories previous && atEnd then g.replaceLast .everythingBelow else g.pushStars

/-- Reads the rest of a pattern after a character, inside a class or not. -/
def read : Option OpenClass → OpenGlob → Option Char → List Char → Except GlobFault OpenGlob
  | none, g, _, [] => .ok g
  | some _, _, _, [] => .error .unclosedClass
  | some k, g, _, c :: r =>
    match k.step c with
    | .error fault => .error fault
    | .ok none => read none (g.push k.part) (some c) r
    | .ok (some k) => read (some k) g (some c) r
  | none, g, previous, '*' :: '*' :: '/' :: r => read none (g.starsSlash previous) (some '/') r
  | none, g, previous, '*' :: '*' :: r => read none (g.stars previous r.head?) (some '*') r
  | none, g, _, '*' :: r => read none (g.push .many) (some '*') r
  | none, g, _, '?' :: r => read none (g.push .any) (some '?') r
  | none, g, _, '[' :: '!' :: r => read (some ⟨true, [], false⟩) g (some '!') r
  | none, g, _, '[' :: '^' :: r => read (some ⟨true, [], false⟩) g (some '^') r
  | none, g, _, '[' :: r => read (some ⟨false, [], false⟩) g (some '[') r
  | none, g, _, '\x7b' :: r => read none g.openGroup (some '\x7b') r
  | none, g, _, '\x7d' :: r =>
    match g.closeGroup with
    | .error fault => .error fault
    | .ok g => read none g (some '\x7d') r
  | none, g, _, ',' :: r => read none g.nextAlternate (some ',') r
  | none, _, _, ['\\'] => .error .danglingEscape
  | none, g, _, '\\' :: c :: r => read none (g.push (.literal c)) (some c) r
  | none, g, _, c :: r => read none (g.push (.literal c)) (some c) r

end OpenGlob

/-- A pattern. -/
structure Glob where
  parts : List GlobPart
  /-- Whether `*` and `?` stop at slashes. -/
  stopsAtSlash : Bool

/-- The pattern with a text. -/
def Glob.ofText (stopsAtSlash : Bool) (text : List Char) : Except GlobFault Glob :=
  match OpenGlob.read none .start none text with
  | .error fault => .error fault
  | .ok g => if g.groups.isEmpty then .ok ⟨g.parts.reverse, stopsAtSlash⟩ else .error .unclosedAlternates

/-! ### Matching -/

/-- The byte of a slash. -/
def slash : UInt8 := 0x2F

/-- The bytes of a character. -/
def bytesOf (c : Char) : Bytes := (String.singleton c).toUTF8.toList

/-- The ranges of bytes that a range of characters stands for. The last byte of the first character
and the first byte of the last character bound a range; every other byte stands for itself. -/
def byteRanges (range : Char × Char) : List (UInt8 × UInt8) :=
  let alone (b : UInt8) : UInt8 × UInt8 := (b, b)
  let first := bytesOf range.1
  let last := bytesOf range.2
  if range.1 = range.2 then first.map alone
  else
    first.dropLast.map alone ++ [(first.getLast?.getD 0, last.head?.getD 0)] ++ last.tail.map alone

/-- Whether a byte lies in one of some ranges of characters. -/
def inRanges (ranges : List (Char × Char)) (b : UInt8) : Bool :=
  (ranges.flatMap byteRanges).any fun (low, high) => low ≤ b && b ≤ high

/-- Whether some bytes of a class, any number of them, can be followed by what a test accepts. -/
def manyThen (p : UInt8 → Bool) (rest : Bytes → Bool) : Bytes → Bool
  | [] => rest []
  | b :: s => rest (b :: s) || (p b && manyThen p rest s)

/-- Whether a slash and a rest that a test accepts come next. -/
def slashThen (rest : Bytes → Bool) : Bytes → Bool
  | [] => false
  | b :: s => b == slash && rest s

/-- Whether one byte of a class and a rest that a test accepts come next. -/
def oneThen (p : UInt8 → Bool) (rest : Bytes → Bool) : Bytes → Bool
  | [] => false
  | b :: s => p b && rest s

mutual

/-- Whether a part matches the beginning of some bytes so that a test accepts the rest. -/
def GlobPart.accepts (free : UInt8 → Bool) : GlobPart → (Bytes → Bool) → Bytes → Bool
  | .literal c, rest, s =>
    let front := bytesOf c
    front.isPrefixOf s && rest (s.drop front.length)
  | .any, rest, s => oneThen free rest s
  | .many, rest, s => manyThen free rest s
  | .directoriesBefore, rest, s =>
    rest s || slashThen rest s || manyThen (fun _ => true) (slashThen rest) s
  | .everythingBelow, rest, s => slashThen (manyThen (fun _ => true) rest) s
  | .directoriesBetween, rest, s =>
    slashThen rest s || slashThen (manyThen (fun _ => true) (slashThen rest)) s
  | .oneOf negated ranges, rest, s => oneThen (fun b => inRanges ranges b != negated) rest s
  | .alternates branches, rest, s => branches.isEmpty && rest s || acceptsSome free branches rest s

/-- Whether parts match one after the other. -/
def acceptsAll (free : UInt8 → Bool) : List GlobPart → (Bytes → Bool) → Bytes → Bool
  | [], rest, s => rest s
  | part :: parts, rest, s => part.accepts free (acceptsAll free parts rest) s

/-- Whether one of several patterns matches. -/
def acceptsSome (free : UInt8 → Bool) : List (List GlobPart) → (Bytes → Bool) → Bytes → Bool
  | [], _, _ => false
  | branch :: branches, rest, s => acceptsAll free branch rest s || acceptsSome free branches rest s

end

/-- Whether a pattern matches a whole path. Two stars alone match every path. -/
def Glob.accepts (g : Glob) (path : Bytes) : Bool :=
  match g.parts with
  | [.directoriesBefore] => true
  | parts => acceptsAll (fun b => !g.stopsAtSlash || b != slash) parts List.isEmpty path

end SuiteMetrics.Files
