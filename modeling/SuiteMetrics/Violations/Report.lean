import SuiteMetrics.Assoc
import SuiteMetrics.Json.Document
import SuiteMetrics.Violations.Message
import SuiteMetrics.Xml.Event

/-!
Reports of a rule checker.

A report lists violations: a file, a rule and a message. Only the values in the messages are kept,
summed for every pair of a file and a rule. Reports come as XML or as JSON; both readers give the
list of violations, and a report that cannot be read to its end gives none at all.
-/

namespace SuiteMetrics.Violations

/-- A violation as reported. -/
structure Violation where
  file : String
  rule : String
  message : List Char
  deriving DecidableEq, Repr

/-- What values are summed by. -/
structure Subject where
  file : String
  rule : Rule
  deriving DecidableEq, Repr

/-- Subjects are ordered by file, and by rule where the files are equal. -/
instance : LT Subject :=
  ⟨fun a b => a.file < b.file ∨ (a.file = b.file ∧ a.rule.metric.rank < b.rule.metric.rank)⟩

instance (a b : Subject) : Decidable (a < b) :=
  inferInstanceAs
    (Decidable (a.file < b.file ∨ (a.file = b.file ∧ a.rule.metric.rank < b.rule.metric.rank)))

/-- The sums of a report in ascending order of their subjects. -/
structure Report where
  sums : List (Subject × Total)

namespace Report

/-- A report without values. -/
def empty : Report := ⟨[]⟩

/-- Whether a report has no value. -/
def isEmpty (r : Report) : Bool := r.sums.isEmpty

/-- The sums with one more violation. A violation of another rule, or without a value, changes
nothing. -/
def add (r : Report) (v : Violation) : Report :=
  match Rule.ofName? v.rule with
  | none => r
  | some rule =>
    match extract? rule v.message with
    | none => r
    | some value =>
      ⟨Assoc.update ⟨v.file, rule⟩ (fun sum => sum.getD 0 + value) r.sums⟩

/-- The report of a list of violations. -/
def ofViolations (vs : List Violation) : Report := vs.foldl add empty

/-- The sum of a file and rule, if there is any value. -/
def sum? (r : Report) (file : String) (rule : Rule) : Option Total :=
  Assoc.get? ⟨file, rule⟩ r.sums

/-- The sum of a file and the name of a rule. A name that is no rule's has no sum. -/
def sumOf? (r : Report) (file rule : String) : Option Total :=
  (Rule.ofName? rule).bind (r.sum? file)

/-- The files that have a value in ascending order. -/
def files (r : Report) : List String := (r.sums.map fun s => s.1.file).eraseDups

/-- The values of a rule over all files. -/
def valuesOf (r : Report) (rule : Rule) : List Total :=
  (r.sums.filter fun s => s.1.rule = rule).map Prod.snd

/-- The sum of each rule that has a value in any file. -/
def totals (r : Report) : List (Rule × Total) :=
  Rule.all.filterMap fun rule =>
    match r.valuesOf rule with
    | [] => none
    | values => some (rule, values.foldl (· + ·) 0)

/-- The metric values of a report. -/
def measurements (r : Report) : List (Metric × Float) :=
  r.totals.map fun (rule, total) => (rule.metric, Float.ofNat total.val)

end Report

/-! ### From XML -/

/-- Where a reader of events stands. -/
structure Reading where
  /-- The number of open elements. -/
  depth : Nat
  /-- The file whose element is open. -/
  file : Option String
  /-- The rule and the message so far of the violation whose element is open. -/
  violation : Option (String × List Char)
  /-- The violations read so far, the last one first. -/
  done : List Violation

namespace Reading

/-- Before the first event. -/
def start : Reading := ⟨0, none, none, []⟩

/-- More text for the message of the open violation. -/
def append (r : Reading) (more : List Char) : Reading :=
  { r with violation := r.violation.map fun (rule, message) => (rule, message ++ more) }

/-- The end of a violation, which counts if a file is open. -/
def finish (r : Reading) : Reading :=
  match r.file, r.violation with
  | some file, some (rule, message) =>
    { r with violation := none, done := ⟨file, rule, Text.trim message⟩ :: r.done }
  | _, _ => { r with violation := none }

/-- The text of an attribute that may be absent; none when it is badly written. -/
def attribute? (sought : String) (attributes : List Char) : Option (Option String) :=
  match Xml.lookup sought attributes with
  | .absent => some none
  | .fault => none
  | .value s => some (some (String.ofList s))

/-- The reading after an event; none when the event cannot be read. -/
def step? (r : Reading) : Xml.Event → Option Reading
  | .opening name attributes =>
    let r := { r with depth := r.depth + 1 }
    match String.ofList (Xml.localName name) with
    | "file" => do
      let file ← attribute? "name" attributes
      pure { r with file := file }
    | "violation" => do
      let rule ← attribute? "rule" attributes
      pure { r with violation := some (rule.getD "", []) }
    | _ => some r
  | .text raw =>
    match r.violation with
    | none => some r
    | some _ => (Xml.unescape? raw).map r.append
  | .cdata raw => some (r.append raw)
  | .closing name =>
    let r := { r with depth := r.depth - 1 }
    match String.ofList (Xml.localName name) with
    | "violation" => some r.finish
    | "file" => some { r with file := none }
    | _ => some r
  | .empty _ _ => some r
  | .silent => some r

/-- The violations of a sequence of events, if it is complete and every element is closed. -/
def violations? (e : Xml.Events) : Option (List Violation) := do
  let r ← e.events.foldlM step? start
  if e.complete && r.depth = 0 then some r.done.reverse else none

end Reading

/-! ### From JSON -/

open Json (Document)

/-- A field that may be absent. A key that makes no text, or the key sought standing twice, is a
fault. -/
def field? (key : String) (fields : List (Option String × Document)) :
    Option (Option Document) :=
  if fields.any fun f => f.1.isNone then none
  else
    match fields.filter fun f => f.1 = some key with
    | [] => some none
    | [f] => some (some f.2)
    | _ => none

/-- A text. -/
def textOf? : Document → Option String
  | .string s => s
  | _ => none

/-- A list. -/
def itemsOf? : Document → Option (List Document)
  | .array items => some items
  | _ => none

/-- A violation of a file: its rule, and a description that may be left out. It is an object, or
an array of the two. -/
def violationOf? (file : String) : Document → Option Violation
  | .object fields => do
    let rule ← textOf? (← (← field? "rule" fields))
    let message ← match ← field? "description" fields with
      | some d => textOf? d
      | none => some ""
    pure ⟨file, rule, message.toList⟩
  | .array [rule] => do pure ⟨file, ← textOf? rule, []⟩
  | .array [rule, message] => do pure ⟨file, ← textOf? rule, (← textOf? message).toList⟩
  | _ => none

/-- The violations of a file: its name, and a list that may be left out. It is an object, or an
array of the two. -/
def violationsOf? : Document → Option (List Violation)
  | .object fields => do
    let name ← textOf? (← (← field? "filename" fields))
    let items ← match ← field? "violations" fields with
      | some d => itemsOf? d
      | none => some []
    items.mapM (violationOf? name)
  | .array [name] => do
    let _ ← textOf? name
    pure []
  | .array [name, items] => do (← itemsOf? items).mapM (violationOf? (← textOf? name))
  | _ => none

/-- The violations of a whole document. -/
def violationsOfDocument? : Document → Option (List Violation)
  | .object fields => do
    let files ← match ← field? "files" fields with
      | some d => itemsOf? d
      | none => some []
    pure (← files.mapM violationsOf?).flatten
  | _ => none

/-! ### From a text -/

/-- The violations in a text: JSON if it starts with a brace, else XML. -/
def violationsOfText? (s : List Char) : Option (List Violation) :=
  match Text.trimStart s with
  | '\x7b' :: _ => (Document.ofText? s).bind violationsOfDocument?
  | _ => Reading.violations? (Xml.events s)

/-- The report in a text, which is empty when the text cannot be read to its end. -/
def Report.ofText (s : String) : Report :=
  match violationsOfText? s.toList with
  | some vs => .ofViolations vs
  | none => .empty

end SuiteMetrics.Violations
