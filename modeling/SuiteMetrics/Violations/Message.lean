import SuiteMetrics.Capped
import SuiteMetrics.Decimal.Reader
import SuiteMetrics.Metric
import SuiteMetrics.Text.DecimalDigit

/-!
Complexity values in the messages of a rule checker.

Two rules report a complexity, each behind a phrase of its own in the message. The value is the
number right after the phrase; where the phrase with a number is found more than once, from left to
right and without overlaps, what is found last alone counts.
-/

namespace SuiteMetrics.Violations

/-- The largest total of values. -/
abbrev limit : Nat := 0xFFFFFFFFFFFFFFFF

/-- A value, or a sum of values. -/
abbrev Total := Capped limit

/-- The rules that report a complexity. -/
inductive Rule where
  | cognitive
  | cyclomatic
  deriving DecidableEq, Repr

namespace Rule

/-- The rules in the order of their metrics. -/
def all : List Rule := [.cognitive, .cyclomatic]

/-- The name of a rule in reports. -/
def name : Rule → String
  | .cognitive => "CognitiveComplexity"
  | .cyclomatic => "CyclomaticComplexity"

/-- The rule with a name. -/
def ofName? (s : String) : Option Rule := all.find? fun rule => rule.name == s

/-- The metric as which a rule's values are imported. -/
def metric : Rule → Metric
  | .cognitive => .pmdCognitive
  | .cyclomatic => .pmdCyclomatic

/-- The words in front of the value in a rule's messages. -/
def phrase : Rule → List Char
  | .cognitive => "cognitive complexity of ".toList
  | .cyclomatic => "cyclomatic complexity of ".toList

end Rule

/-- The digits right after a phrase at the start of a text, if both are there. -/
def digitsAfter? (phrase s : List Char) : Option (List Char) :=
  if phrase.isPrefixOf s then
    match (s.drop phrase.length).takeWhile Text.isDecimalDigit with
    | [] => none
    | digits => some digits
  else none

/-- The digits of each match of a phrase with digits after it, from left to right. A match begins
behind the one before it, to which the first `passed` characters still belong. -/
def matchesFrom (phrase : List Char) : (passed : Nat) → List Char → List (List Char)
  | _, [] => []
  | passed + 1, _ :: r => matchesFrom phrase passed r
  | 0, c :: r =>
    match digitsAfter? phrase (c :: r) with
    | some digits => digits :: matchesFrom phrase (phrase.length + digits.length - 1) r
    | none => matchesFrom phrase 0 r

/-- The digits of each match in a whole text. -/
def matchesOf (phrase s : List Char) : List (List Char) := matchesFrom phrase 0 s

/-- The number that digits stand for, if they are ASCII digits and it is not beyond the limit. -/
def value? (digits : List Char) : Option Total :=
  let n := Decimal.digitsValue digits
  if h : digits.all Decimal.isDigit ∧ n ≤ limit then some ⟨n, h.2⟩ else none

/-- The value in a message of a rule: that of the last match. -/
def extract? (rule : Rule) (message : List Char) : Option Total :=
  (matchesOf rule.phrase message).getLast?.bind value?

/-- The value in a message of the rule with a name. A name that is no rule's has none. -/
def valueIn? (rule : String) (message : List Char) : Option Total :=
  (Rule.ofName? rule).bind fun rule => extract? rule message

end SuiteMetrics.Violations
