import SuiteMetrics.Capped
import SuiteMetrics.Metric
import SuiteMetrics.Syntax.Node
import SuiteMetrics.Text.Blank
import SuiteMetrics.Text.Find

/-!
Scoring policies.

A policy is a list of rules and a set of constructs that nest. A rule names a construct, a test on
the node, and a weight: a fixed one, or one more than the nesting depth at the node. Nothing else
of a policy reaches the score.
-/

namespace SuiteMetrics.Scoring

open Syntax (Node NodeKind)

/-- The largest score and the largest depth. -/
abbrev limit : Nat := 0xFFFFFFFF

/-- A score, or a nesting depth. -/
abbrev Score := Capped limit

/-- What a rule adds for a node. -/
inductive Effect where
  /-- The same for every node. -/
  | flat (weight : Score)
  /-- One more than the nesting depth at the node. -/
  | nested
  deriving DecidableEq, Repr

/-- The weight of an effect at a nesting depth. -/
def Effect.weight (depth : Score) : Effect → Score
  | .flat w => w
  | .nested => depth + .ofNat 1

/-- A test on a node of the right construct. -/
inductive Matcher where
  | always
  /-- The node's text contains one of the tokens. -/
  | containsAny (tokens : List String)
  /-- The short name is one of the names. -/
  | nameIn (names : List String)
  /-- The short name starts with one of the beginnings. -/
  | nameStartsWith (beginnings : List String)
  /-- The node's text contains the name of the enclosing method. -/
  | recursion
  deriving DecidableEq, Repr

/-- The last dotted part of a node's name, without blanks around it. -/
def shortName? (source : String) (n : Node) : Option (List Char) :=
  (n.nameText? source).map fun name => Text.trim (Text.afterLast (· == '.') name.toList)

/-- Whether a node passes a test, inside the enclosing method if there is one. -/
def Matcher.accepts (source : String) (enclosing : Option String) (n : Node) : Matcher → Bool
  | .always => true
  | .containsAny tokens =>
    let text := (n.text source).toList
    tokens.any fun token => Text.occursIn token.toList text
  | .nameIn names =>
    match shortName? source n with
    | some short => names.any fun name => name.toList == short
    | none => false
  | .nameStartsWith beginnings =>
    match shortName? source n with
    | some short => beginnings.any fun beginning => beginning.toList.isPrefixOf short
    | none => false
  | .recursion =>
    match enclosing with
    | some method => method != "" && Text.occursIn method.toList (n.text source).toList
    | none => false

/-- A rule of a policy. -/
structure Rule where
  name : String
  kind : NodeKind
  matcher : Matcher
  effect : Effect
  deriving DecidableEq, Repr

/-- A scoring policy. -/
structure Policy where
  name : String
  /-- The rules in the order in which they apply. -/
  rules : List Rule
  /-- The constructs that nest, each once. -/
  nesting : List NodeKind
  deriving DecidableEq, Repr

namespace Policy

/-- A policy without rules in which nothing nests. -/
def empty (name : String) : Policy := ⟨name, [], []⟩

/-- A policy with one more rule at the end. -/
def withRule (p : Policy) (rule : Rule) : Policy := { p with rules := p.rules ++ [rule] }

/-- A policy in which one more construct nests. -/
def withNesting (p : Policy) (kind : NodeKind) : Policy :=
  if p.nesting.contains kind then p else { p with nesting := p.nesting ++ [kind] }

/-- Whether a construct nests. -/
def nests (p : Policy) (kind : NodeKind) : Bool := p.nesting.contains kind

/-- The rules for a construct in their order. -/
def rulesFor (p : Policy) (kind : NodeKind) : List Rule := p.rules.filter fun r => r.kind == kind

/-! ### The built-in policies -/

/-- The constructs whose nesting makes code harder to follow. -/
def controlFlow : List NodeKind := [.ifThen, .forLoop, .whileLoop, .doLoop, .switch, .catchClause]

/-- The constructs at which a path divides. -/
def decisions : List NodeKind :=
  [.ifThen, .forLoop, .whileLoop, .doLoop, .catchClause, .ternary, .caseLabel]

/-- A rule of weight one. -/
def unitRule (name : String) (kind : NodeKind) (matcher : Matcher) : Rule :=
  ⟨name, kind, matcher, .flat (.ofNat 1)⟩

/-- The rule for conditions joined by `&&` or `||`. -/
def logicalOperator : Rule := unitRule "logical-operator" .binary (.containsAny ["&&", "||"])

/-- Cognitive complexity: control flow weighs more the deeper it is nested. -/
def structural : Policy where
  name := "structural"
  rules := controlFlow.map (fun kind => ⟨"control-flow", kind, .always, .nested⟩) ++
    [logicalOperator,
      unitRule "labeled-jump" .labeled (.containsAny ["break", "continue", "goto"]),
      unitRule "recursion" .invocation .recursion]
  nesting := controlFlow

/-- The rules for the idioms of tests. -/
def testIdioms : List Rule :=
  [unitRule "test-marker" .annotationUse (.nameIn ["Test"]),
    ⟨"parameterized-test", .annotationUse, .nameIn ["ParameterizedTest"], .flat (.ofNat 2)⟩,
    unitRule "lifecycle" .annotationUse
      (.nameIn ["BeforeEach", "AfterEach", "BeforeAll", "AfterAll", "Before", "After",
        "BeforeClass", "AfterClass"]),
    unitRule "mocking" .invocation (.nameIn ["mock", "spy", "when", "verify"]),
    unitRule "assertion" .invocation (.nameStartsWith ["assert"]),
    unitRule "explicit-failure" .invocation (.nameIn ["fail"]),
    unitRule "assert-statement" .assertion .always]

/-- Cognitive complexity with the idioms of tests. -/
def testAware : Policy :=
  { structural with name := "test_aware", rules := structural.rules ++ testIdioms }

/-- The number of decisions; nothing nests. -/
def cyclomatic : Policy where
  name := "cyclomatic"
  rules := decisions.map (fun kind => unitRule "decision" kind .always) ++ [logicalOperator]
  nesting := []

end Policy

/-- The built-in policies. -/
inductive PolicyKind where
  | structural
  | testAware
  | cyclomatic
  deriving DecidableEq, Repr

namespace PolicyKind

/-- The built-in policies in their order. -/
def all : List PolicyKind := [.structural, .testAware, .cyclomatic]

/-- The written name of a choice of policy. -/
def name : PolicyKind → String
  | .structural => "structural"
  | .testAware => "test-aware"
  | .cyclomatic => "cyclomatic"

/-- The choice with a written name. -/
def ofName? (s : String) : Option PolicyKind := all.find? fun kind => kind.name == s

/-- The policy of a choice. -/
def policy : PolicyKind → Policy
  | .structural => .structural
  | .testAware => .testAware
  | .cyclomatic => .cyclomatic

/-- The metric that the policy's scores are. -/
def metric : PolicyKind → Metric
  | .structural => .cognitive
  | .testAware => .testAware
  | .cyclomatic => .cyclomatic

end PolicyKind

end SuiteMetrics.Scoring
