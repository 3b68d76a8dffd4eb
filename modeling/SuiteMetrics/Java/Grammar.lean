import SuiteMetrics.Java.Parser

/-!
The grammar of Java.

Every nonterminal that occurs inside itself is a `Goal`. The rule of a goal is written over a
parser for all goals, `self`, and `parseWithin` ties the knot with a bound on how deep goals are
nested, which the number of tokens gives. Statements and declarations are given as the concrete
trees that they contain.

Two shapes of fault are understood. A declaration of variables, a field, an import or a package
without its semicolon, and a body that the end of the source leaves open, get the missing token as
a tree of its own. An expression, `return` and the like in front of a closing brace, without a
semicolon, becomes a stretch that fits no construct.
-/

namespace SuiteMetrics.Java

open SuiteMetrics.Java.Parser

/-- The nonterminals that occur inside themselves. -/
inductive Goal where
  /-- An expression, lambda expressions included. -/
  | expression
  /-- An expression that is no lambda expression. -/
  | conditional
  /-- Operands and binary operators that bind at least as tightly as a level. -/
  | operation (level : Nat)
  | unary
  | typeUse
  | annotationUse
  /-- A value in the arguments of an annotation. -/
  | elementValue
  /-- The braces of an array's values. -/
  | arrayValues
  | pattern
  | block
  | statement
  /-- A declaration with its modifiers, in the body of a type. -/
  | member
  /-- The same in the body of an annotation type. -/
  | annotationMember
  | typeBody
  | interfaceBody
  | enumBody
  deriving DecidableEq

section Rules

variable (self : Goal → Parser Forest)

/-! ### Modifiers and types -/

/-- Whether an annotation comes next, and not the declaration of an annotation type. -/
def seesAnnotation : Parser Bool := do
  let tokens ← rest
  pure (tokenIs tokens 0 "@" && !tokenIs tokens 1 "interface")

/-- The annotations that come next. -/
def annotations : Parser Forest := many seesAnnotation (self .annotationUse)

/-- The modifiers that are keywords. -/
def modifierWords : List String :=
  ["public", "protected", "private", "abstract", "static", "final", "strictfp", "native",
    "transient", "volatile"]

/-- How many tokens the modifier at the start of some tokens has; zero when there is none. -/
def modifierLength (tokens : List Token) : Nat :=
  match tokens with
  | t :: r =>
    if t.isAny modifierWords then 1
    else if t.is "default" && !(tokenIs r 0 ":" || tokenIs r 0 "->") then 1
    else if t.is "synchronized" && !tokenIs r 0 "(" then 1
    else if t.is "sealed" &&
        (["class", "interface", "abstract"] ++ modifierWords).any (tokenIs r 0) then 1
    else if t.is "non" && tokenIs r 0 "-" && tokenIs r 1 "sealed" then 3
    else 0
  | [] => 0

/-- The modifiers and annotations in front of a declaration. -/
def modifiers : Parser Forest :=
  many (do pure ((← seesAnnotation) || modifierLength (← rest) != 0)) do
    if ← seesAnnotation then self .annotationUse
    else
      skip (modifierLength (← rest))
      pure []

/-- One argument in angle brackets: a type, or a wildcard with or without a bound. -/
def typeArgument : Parser Forest := do
  let marks ← annotations self
  if ← accept "?" then
    if (← accept "extends") || (← accept "super") then pure (marks ++ (← self .typeUse))
    else pure marks
  else pure (marks ++ (← self .typeUse))

/-- Type arguments in angle brackets, if they come next; they may be left out inside. -/
def typeArguments : Parser Forest := do
  if ← sees "<" then listed "<" ">" (typeArgument self) else pure []

/-- The empty brackets of an array type. -/
def dimensions : Parser Forest :=
  many (do
    let tokens ← rest
    if tokenIs tokens 0 "[" then pure (tokenIs tokens 1 "]")
    else if ← seesAnnotation then
      pure ((← lookahead do
        let _ ← annotations self
        expect "["
        expect "]").isSome)
    else pure false) do
    let marks ← annotations self
    skip 2
    pure marks

/-- A type without array brackets. -/
def elementType : Parser Forest := do
  let marks ← annotations self
  if ← seesAny ("void" :: primitives) then
    skip 1
    pure marks
  else
    let _ ← name
    let arguments ← typeArguments self
    let more ← many (do
        let tokens ← rest
        pure (dotNameAt tokens 0 || (tokenIs tokens 0 "." && tokenIs tokens 1 "@"))) do
      skip 1
      let marks ← annotations self
      skip 1
      pure (marks ++ (← typeArguments self))
    pure (marks ++ arguments ++ more)

/-- A type. -/
def typeRule : Parser Forest := do
  let element ← elementType self
  pure (element ++ (← dimensions self))

/-- Type parameters in angle brackets, if they come next. -/
def typeParameters : Parser Forest := do
  if ← accept "<" then
    let inside ← separated "," do
      let marks ← annotations self
      let _ ← declaredName
      if ← accept "extends" then pure (marks ++ (← separated "&" (self .typeUse)))
      else pure marks
    expect ">"
    pure inside
  else pure []

/-- The arguments of an annotation in parentheses: one value, or values with names. -/
def annotationArguments : Parser Forest := do
  let tokens ← rest
  if tokenIs tokens 1 ")" || (nameAt tokens 1 && tokenIs tokens 2 "=") then
    listed "(" ")" do
      let _ ← name
      expect "="
      self .elementValue
  else
    expect "("
    let value ← self .elementValue
    expect ")"
    pure value

/-- An annotation: its name may be dotted, and its arguments may be left out. -/
def annotationRule : Parser Forest := do
  let start ← here
  expect "@"
  let span ← dotted
  let inside ← if ← sees "(" then annotationArguments self else pure []
  build .annotationUse start (some span) inside

/-- Parts with commas between them up to a closing brace or a semicolon, if there are any; a comma
may stand at the end, also alone. -/
def items (p : Parser Forest) : Parser Forest := do
  let atEnd (tokens : List Token) (i : Nat) : Bool :=
    tokenIs tokens i "\x7d" || tokenIs tokens i ";"
  if atEnd (← rest) 0 || (← accept ",") then pure []
  else
    let first ← p
    let more ← many (do pure (tokenIs (← rest) 0 "," && !atEnd (← rest) 1)) do
      skip 1
      p
    let _ ← accept ","
    pure (first ++ more)

/-- Parts in braces. -/
def braced (p : Parser Forest) : Parser Forest := do
  expect "\x7b"
  let inside ← items p
  expect "\x7d"
  pure inside

/-- A value in the arguments of an annotation. -/
def elementValueRule : Parser Forest := do
  if ← seesAnnotation then self .annotationUse
  else if ← sees "\x7b" then braced (self .elementValue)
  else self .conditional

/-- A value of an array or a variable. -/
def initializer : Parser Forest := do
  if ← sees "\x7b" then self .arrayValues else self .expression

/-! ### Expressions -/

/-- Arguments in parentheses. -/
def arguments : Parser Forest := listed "(" ")" (self .expression)

/-- An expression in parentheses. -/
def parenthesized : Parser Forest := do
  expect "("
  let inside ← self .expression
  expect ")"
  pure inside

/-- The parameters of a method: the last one may take the remaining arguments, and the first one
may be the receiver. -/
def parameters : Parser Forest :=
  listed "(" ")" do
    let marks ← modifiers self
    let type ← self .typeUse
    let more ← annotations self
    let _ ← accept "..."
    let _ ← many (do pure (nameAt (← rest) 0 && tokenIs (← rest) 1 ".")) do
      skip 2
      pure []
    if !(← accept "this") then
      let _ ← declaredName
    pure (marks ++ type ++ more ++ (← dimensions self))

/-- The parameters of a lambda expression: names alone, or as those of a method. -/
def lambdaParameters : Parser Forest := do
  if ← sees "(" then
    (listed "(" ")" do
      let _ ← name
      if (← sees ",") || (← sees ")") then pure [] else failure) <|> parameters self
  else
    let _ ← name
    pure []

/-- A lambda expression. -/
def lambda : Parser Forest := do
  let inside ← lambdaParameters self
  expect "->"
  let body ← if ← sees "\x7b" then self .block else self .expression
  pure (inside ++ body)

/-- The operators that assign, apart from those that begin with a closing angle bracket. -/
def assignments : List String :=
  ["=", "+=", "-=", "*=", "/=", "&=", "|=", "^=", "%=", "<<="]

/-- How many closing angle brackets stand side by side at the start of some tokens, up to a
number. -/
def closingBrackets : Nat → List Token → Nat
  | 0, _ => 0
  | limit + 1, t :: r =>
    if t.is ">" then
      match r with
      | next :: _ => if t.touches next then closingBrackets limit r + 1 else 1
      | [] => 1
    else 0
  | _, [] => 0

/-- How many tokens the assigning operator at the start of some tokens has; zero when there is
none. -/
def assignmentLength (tokens : List Token) : Nat :=
  match tokens with
  | t :: _ =>
    if t.isAny assignments then 1
    else
      let n := closingBrackets 3 tokens
      if n ≥ 2 && tokenIs tokens n "=" then
        match tokens[n - 1]?, tokens[n]? with
        | some last, some equals => if last.touches equals then n + 1 else 0
        | _, _ => 0
      else 0
  | [] => 0

/-- The binary operators and how tightly they bind. -/
def operators : List (String × Nat) :=
  [("||", 1), ("&&", 2), ("|", 3), ("^", 4), ("&", 5), ("==", 6), ("!=", 6), ("<", 7), ("<=", 7),
    ("<<", 8), ("+", 9), ("-", 9), ("*", 10), ("/", 10), ("%", 10)]

/-- The binary operator at the start of some tokens: how tightly it binds and how many tokens it
has. -/
def operator? (tokens : List Token) : Option (Nat × Nat) :=
  match tokens with
  | t :: _ =>
    if t.is ">" then
      let n := closingBrackets 3 tokens
      let joined := match tokens[n - 1]?, tokens[n]? with
        | some last, some equals => last.touches equals && equals.is "="
        | _, _ => false
      if joined then if n = 1 then some (7, 2) else none
      else if n = 1 then some (7, 1)
      else some (8, n)
    else
      match operators.find? fun o => t.is o.1 with
      | some (_, level) => some (level, 1)
      | none => none
  | [] => none

/-- Any expression. -/
def expressionRule : Parser Forest := do
  if startsLambda (← rest) then lambda self else self .conditional

/-- A condition and its two alternatives, or an expression that binds more tightly. -/
def conditionalRule : Parser Forest := do
  let start ← here
  let condition ← self (.operation 1)
  if ← accept "?" then
    let yes ← self .expression
    expect ":"
    let no ← if startsLambda (← rest) then self .expression else self .conditional
    build .ternary start none (condition ++ yes ++ no)
  else pure condition

/-- What follows `instanceof`: a pattern or a type. -/
def tested : Parser Forest :=
  self .pattern <|> do
    let marks ← modifiers self
    pure (marks ++ (← self .typeUse))

/-- The operators at a level and above that follow a left operand. -/
def operationFrom (level : Nat) (start : Mark) : Nat → Forest → Parser Forest
  | 0, left => pure left
  | fuel + 1, left => do
    if (← sees "instanceof") && level ≤ 7 then
      skip 1
      operationFrom level start fuel (left ++ (← tested self))
    else
      match operator? (← rest) with
      | some (binding, length) =>
        if level ≤ binding then
          skip length
          let right ← self (.operation (binding + 1))
          operationFrom level start fuel (← build .binary start none (left ++ right))
        else pure left
      | none => pure left

/-- Operands with binary operators between them; equal operators group to the left. -/
def operationRule (level : Nat) : Parser Forest := do
  let start ← here
  let left ← self .unary
  operationFrom self level start ((← remaining) + 1) left

/-- Whether a token can begin the operand of a cast to a class or interface. -/
def startsCastOperand (tokens : List Token) : Bool :=
  match tokens with
  | t :: _ =>
    t.isName || t.kind == .literal ||
      t.isAny (["(", "!", "~", "this", "super", "new", "switch", "true", "false", "null", "void"] ++
        primitives)
  | [] => false

/-- The type of a cast in its parentheses. -/
def castType : Parser Forest := do
  expect "("
  let primitive ← seesAny primitives
  let types ← separated "&" (self .typeUse)
  expect ")"
  if primitive then pure types
  else if startsCastOperand (← rest) then pure types
  else failure

/-- A cast with its operand. -/
def cast : Parser Forest := do
  let types ← castType self
  let operand ← if startsLambda (← rest) then self .expression else self .unary
  pure (types ++ operand)

/-- Array brackets or type arguments, and then a method reference or the class of a type. -/
def typeOperand : Parser Forest := do
  let inside ← typeArguments self
  let more ← many (do pure (dotNameAt (← rest) 0)) do
    skip 2
    typeArguments self
  let brackets ← dimensions self
  if (← sees "::") || (tokenIs (← rest) 0 "." && tokenIs (← rest) 1 "class") then
    pure (inside ++ more ++ brackets)
  else failure

/-- The end of a new object: its arguments, and perhaps the body of its class. -/
def objectEnd : Parser Forest := do
  let inside ← arguments self
  if ← sees "\x7b" then pure (inside ++ (← self .typeBody)) else pure inside

/-- Whether a size in brackets comes next, with its annotations. -/
def seesSize : Parser Bool := do
  pure (← lookahead do
    let _ ← annotations self
    expect "["
    if ← sees "]" then failure).isSome

/-- The end of a new array: its sizes, or empty brackets and its values. -/
def arrayEnd : Parser Forest := do
  if ← seesSize self then
    let sizes ← many (seesSize self) do
      let marks ← annotations self
      expect "["
      let size ← self .expression
      expect "]"
      pure (marks ++ size)
    pure (sizes ++ (← dimensions self))
  else
    let brackets ← dimensions self
    pure (brackets ++ (← self .arrayValues))

/-- A new object or array. -/
def creation : Parser Forest := do
  expect "new"
  let marks ← annotations self
  let inside ← typeArguments self
  let type ← elementType self
  let tail ← if ← sees "(" then objectEnd self else arrayEnd self
  pure (marks ++ inside ++ type ++ tail)

/-- A call by a name that comes next, on what has been read since a mark. -/
def call (start : Mark) (receiver : Forest) : Parser Forest := do
  let method ← take
  let inside ← arguments self
  build .invocation start (some (bytes method)) (receiver ++ inside)

/-- What an operand is, as far as what may follow depends on it. -/
inductive Operand where
  /-- Identifiers with dots between them: a variable, a field or a type. -/
  | path
  | field
  /-- An element of an array. -/
  | element
  | value
  deriving DecidableEq

/-- Whether something can be assigned to an operand. -/
def Operand.isPlace (o : Operand) : Bool := o != .value

/-- `super` has been read: a dot or a method reference comes next. -/
def afterSuper : Parser Unit := do
  if !(← sees ".") && !(← sees "::") then failure

/-- An operand without the selectors after it. -/
def primary : Parser (Operand × Forest) := do
  match ← rest with
  | [] => failure
  | t :: r =>
    if t.kind == .literal || t.isAny ["true", "false", "null", "this"] then
      skip 1
      pure (.value, [])
    else if t.is "super" then
      skip 1
      afterSuper
      pure (.value, [])
    else if t.is "(" then pure (.value, ← parenthesized self)
    else if t.is "new" then pure (.value, ← creation self)
    else if t.isAny ("void" :: primitives) then
      skip 1
      pure (.path, ← typeOperand self)
    else if t.isName then
      if tokenIs r 0 "(" then pure (.value, ← call self t.start [])
      else
        skip 1
        pure (.path, [])
    else failure

/-- A selector that begins with a dot, after an operand that began at a mark. -/
def selection (start : Mark) (operand : Operand) (left : Forest) :
    Parser (Operand × Forest) := do
  expect "."
  match ← rest with
  | [] => failure
  | t :: r =>
    if t.is "new" then pure (.value, left ++ (← creation self))
    else if t.is "class" then
      skip 1
      if operand = .path then pure (.value, left) else failure
    else if t.is "this" then
      skip 1
      pure (.field, left)
    else if t.is "super" then
      skip 1
      afterSuper
      pure (.value, left)
    else if t.is "<" then
      let inside ← typeArguments self
      if (← seesWord) then pure (.value, ← call self start (left ++ inside)) else failure
    else if t.isMemberName then
      if tokenIs r 0 "(" then pure (.value, ← call self start left)
      else
        skip 1
        pure (if operand = .path then .path else .field, left)
    else if t.kind == .literal then
      skip 1
      pure (.value, left)
    else failure

/-- Whether a constructor of the class above comes next, called on what stands before. -/
def seesOuterConstructor : Parser Bool := do
  pure (← lookahead do
    expect "."
    let _ ← typeArguments self
    expect "super"
    expect "(").isSome

/-- The selectors after an operand that began at a mark. -/
def selectors (start : Mark) : Nat → Operand × Forest → Parser (Operand × Forest)
  | 0, all => pure all
  | fuel + 1, (operand, left) => do
    let tokens ← rest
    if tokenIs tokens 0 "." then
      if ← seesOuterConstructor self then pure (operand, left)
      else selectors start fuel (← selection self start operand left)
    else if tokenIs tokens 0 "[" && !tokenIs tokens 1 "]" then
      skip 1
      let index ← self .expression
      expect "]"
      selectors start fuel (.element, left ++ index)
    else if tokenIs tokens 0 "::" then
      skip 1
      let inside ← typeArguments self
      let _ ← declaredName
      selectors start fuel (.value, left ++ inside)
    else if operand = .path && (tokenIs tokens 0 "<" || tokenIs tokens 0 "[") then
      match ← optional? (typeOperand self) with
      | some inside => selectors start fuel (.path, left ++ inside)
      | none => pure (operand, left)
    else pure (operand, left)

/-- An operand with its selectors. -/
def selected : Parser (Operand × Forest) := do
  selectors self (← here) ((← remaining) + 1) (← primary self)

/-- An operand with its selectors, and with an assignment to it or the operators after it. -/
def postfixed : Parser Forest := do
  let (operand, left) ← selected self
  let assignment ← if operand.isPlace then pure (assignmentLength (← rest)) else pure 0
  if assignment ≠ 0 then
    skip assignment
    pure (left ++ (← self .expression))
  else
    let _ ← many (seesAny ["++", "--"]) do
      skip 1
      pure []
    pure left

/-- An operand with the operators in front of it. -/
def unaryRule : Parser Forest := do
  if ← seesAny ["+", "-", "!", "~", "++", "--"] then
    skip 1
    self .unary
  else if ← sees "switch" then self .statement
  else if ← sees "(" then cast self <|> postfixed self
  else postfixed self

/-! ### Switches and patterns -/

/-- A pattern: a type with a name, or a type with patterns in parentheses. -/
def patternRule : Parser Forest := do
  if tokenIs (← rest) 0 "_" then
    skip 1
    pure []
  else
    let marks ← modifiers self
    let type ← self .typeUse
    if ← sees "(" then
      let inside ← listed "(" ")" (self .pattern)
      if (← seesName) && !(← sees "when") then skip 1
      pure (marks ++ type ++ inside)
    else
      if ← sees "when" then failure
      let _ ← declaredName
      pure (marks ++ type)

/-- One of the values or patterns of a label. -/
def labelItem : Parser Forest :=
  (do
    let inside ← self .pattern
    if ← seesAny [",", ":", "->", "when"] then pure inside else failure) <|>
  self .conditional

/-- A label of a switch, without the colon or arrow after it. -/
def switchLabel : Parser Forest :=
  node .switchLabel do
    if ← accept "default" then pure []
    else
      expect "case"
      let items ← separated "," (labelItem self)
      if ← accept "when" then pure (items ++ (← self .conditional)) else pure items

/-- What follows the arrow of a label. -/
def ruleBody : Parser Forest := do
  if ← sees "\x7b" then self .block
  else if ← sees "throw" then self .statement
  else
    let inside ← self .expression
    expect ";"
    pure inside

/-- Labels with arrows. -/
def switchRules : Parser Forest :=
  many (seesAny ["case", "default"]) do
    let label ← switchLabel self
    expect "->"
    pure (label ++ (← ruleBody self))

/-- Labels with colons and the statements after them. -/
def switchGroups : Parser Forest :=
  many (seesAny ["case", "default"]) do
    let label ← switchLabel self
    expect ":"
    let inside ← many (do pure (!(← seesAny ["case", "default", "\x7d"]) && !(← rest).isEmpty))
      (self .statement)
    pure (label ++ inside)

/-- A switch; all its labels have arrows or all have colons. -/
def switch : Parser Forest :=
  node .switch do
    expect "switch"
    let subject ← parenthesized self
    expect "\x7b"
    let first ← lookahead do
      let _ ← switchLabel self
      expect "->"
    let body ← if first.isSome then switchRules self else switchGroups self
    expect "\x7d"
    pure (subject ++ body)

/-! ### Ends of statements -/

/-- The semicolon of a declaration, which may be missing. -/
def declarationEnd : Parser Forest := do
  if ← accept ";" then pure []
  else
    let stop ← before
    build (.missing ";") stop none []

/-- The closing brace of a body, which may be missing at the end of the source. -/
def bodyEnd : Parser Forest := do
  if (← rest).isEmpty then
    let stop ← before
    build (.missing "\x7d") stop none []
  else
    expect "\x7d"
    pure []

/-- A statement up to its semicolon. Without one in front of a closing brace, it fits no
construct. -/
def ended (construct : Option Construct) (p : Parser Forest) : Parser Forest := do
  let start ← here
  let inside ← p
  if ← accept ";" then
    match construct with
    | some construct => build construct start none inside
    | none => pure inside
  else if ← sees "\x7d" then build .fault start none inside
  else failure

/-! ### Statements -/

/-- Variables with their values. -/
def declarators : Parser Forest :=
  separated "," do
    let _ ← declaredName
    let brackets ← dimensions self
    if ← accept "=" then pure (brackets ++ (← initializer self)) else pure brackets

/-- A declaration of variables without its semicolon. -/
def variableDeclaration : Parser Forest := do
  let marks ← modifiers self
  let type ← self .typeUse
  pure (marks ++ type ++ (← declarators self))

/-- Whether a declaration of variables comes next. -/
def seesVariables : Parser Bool := do
  pure (← lookahead do
    let _ ← modifiers self
    let _ ← self .typeUse
    let _ ← declaredName).isSome

/-- The head of a loop over the elements of something. -/
def eachHead : Parser Forest := do
  let marks ← modifiers self
  let type ← self .typeUse
  let _ ← declaredName
  let brackets ← dimensions self
  expect ":"
  let subject ← self .expression
  expect ")"
  pure (marks ++ type ++ brackets ++ subject)

/-- The head of a loop with a start, a condition and a step, each of which may be left out. -/
def countHead : Parser Forest := do
  let start ←
    if ← sees ";" then pure []
    else if ← seesVariables self then variableDeclaration self
    else separated "," (self .expression)
  expect ";"
  let condition ← if ← sees ";" then pure [] else self .expression
  expect ";"
  let step ← if ← sees ")" then pure [] else separated "," (self .expression)
  expect ")"
  pure (start ++ condition ++ step)

/-- A loop with the word `for`. -/
def forLoop : Parser Forest := do
  let start ← here
  expect "for"
  expect "("
  match ← optional? (eachHead self) with
  | some head => build .enhancedForStatement start none (head ++ (← self .statement))
  | none =>
    let head ← countHead self
    build .forStatement start none (head ++ (← self .statement))

/-- A resource of a `try`: a variable with its value, or one that is there already. -/
def resource : Parser Forest := do
  if ← seesVariables self then
    let marks ← modifiers self
    let type ← self .typeUse
    let _ ← declaredName
    let brackets ← dimensions self
    expect "="
    pure (marks ++ type ++ brackets ++ (← self .expression))
  else
    let (operand, inside) ← selected self
    if operand = .path || operand = .field then pure inside else failure

/-- Resources with semicolons between them and perhaps after them. -/
def resources : Parser Forest := do
  expect "("
  let first ← resource self
  let more ← many (do
      let tokens ← rest
      pure (tokenIs tokens 0 ";" && !tokenIs tokens 1 ")")) do
    skip 1
    resource self
  let _ ← accept ";"
  expect ")"
  pure (first ++ more)

/-- A handler of a `try`. -/
def catchClause : Parser Forest :=
  node .catchClause do
    expect "catch"
    expect "("
    let marks ← modifiers self
    let types ← separated "|" (self .typeUse)
    let _ ← declaredName
    expect ")"
    pure (marks ++ types ++ (← self .block))

/-- A `try` with resources, a handler or a last block. -/
def tryStatement : Parser Forest := do
  expect "try"
  let withResources ← sees "("
  let opened ← if withResources then resources self else pure []
  let body ← self .block
  let handled ← sees "catch"
  let handlers ← many (sees "catch") (catchClause self)
  if ← accept "finally" then pure (opened ++ body ++ handlers ++ (← self .block))
  else if withResources || handled then pure (opened ++ body ++ handlers)
  else failure

/-- The keywords that introduce a type. -/
def typeWords : List String := ["class", "interface", "enum"]

/-- Whether the declaration of a type comes next, after its modifiers. -/
def seesTypeWord (tokens : List Token) : Bool :=
  typeWords.any (tokenIs tokens 0) || (tokenIs tokens 0 "@" && tokenIs tokens 1 "interface") ||
    (tokenIs tokens 0 "record" && nameAt tokens 1 && (tokenIs tokens 2 "(" || tokenIs tokens 2 "<"))

/-- The types that a declaration names after one of its words. -/
def typeList (word : String) : Parser Forest := do
  if ← accept word then separated "," (self .typeUse) else pure []

/-- A declaration of an annotation type after its modifiers. -/
def annotationTypeDeclaration : Parser Forest := do
  expect "@"
  expect "interface"
  let _ ← declaredName
  expect "\x7b"
  let body ← many (do pure (!(← rest).isEmpty && !(← sees "\x7d"))) (self .annotationMember)
  pure (body ++ (← bodyEnd))

/-- A declaration of a type after its modifiers. -/
def typeDeclaration : Parser Forest := do
  if ← sees "@" then annotationTypeDeclaration self
  else
    let word ← take
    let _ ← declaredName
    if word.is "enum" then
      let implemented ← typeList self "implements"
      pure (implemented ++ (← self .enumBody))
    else
      let generics ← typeParameters self
      if word.is "interface" then
        let extended ← typeList self "extends"
        let permitted ← typeList self "permits"
        pure (generics ++ extended ++ permitted ++ (← self .interfaceBody))
      else if word.is "record" then
        let components ← parameters self
        let implemented ← typeList self "implements"
        pure (generics ++ components ++ implemented ++ (← self .typeBody))
      else
        let extended ← if ← accept "extends" then self .typeUse else pure []
        let implemented ← typeList self "implements"
        let permitted ← typeList self "permits"
        pure (generics ++ extended ++ implemented ++ permitted ++ (← self .typeBody))

/-- Whether the declaration of a type comes next, with its modifiers. -/
def seesType : Parser Bool := do
  pure (← lookahead do
    let _ ← modifiers self
    if seesTypeWord (← rest) then pure () else failure).isSome

/-- A declaration of a type with its modifiers. -/
def typeWithModifiers : Parser Forest := do
  let marks ← modifiers self
  pure (marks ++ (← typeDeclaration self))

/-- Whether a `yield` statement comes next, and not an expression that begins with that name. -/
def seesYield (tokens : List Token) : Bool :=
  tokenIs tokens 0 "yield" &&
    !(tokenIs tokens 1 "(" && tokenIs tokens 2 ")" && !tokenIs tokens 3 "->") &&
    ["=", ".", "[", "++", "--", "+=", "-=", "::", ";", ":", ")", ",", "->"].all fun symbol =>
      !tokenIs tokens 1 symbol

/-- A declaration of a package or an import after its word. -/
def namedDeclaration : Parser Forest := do
  let _ ← take
  let _ ← accept "static"
  let _ ← dotted
  if tokenIs (← rest) 0 "." && tokenIs (← rest) 1 "*" then skip 2
  declarationEnd

/-- A module with its directives. -/
def moduleDeclaration : Parser Forest := do
  let _ ← accept "open"
  expect "module"
  let _ ← dotted
  expect "\x7b"
  let _ ← many (do pure (!(← rest).isEmpty && !(← sees "\x7d"))) do
    skip 1
    pure []
  bodyEnd

/-- Whether a module comes next. -/
def seesModule (tokens : List Token) : Bool :=
  (tokenIs tokens 0 "module" && nameAt tokens 1 && !tokenIs tokens 2 "=" &&
      !tokenIs tokens 2 ";") ||
    (tokenIs tokens 0 "open" && tokenIs tokens 1 "module" && nameAt tokens 2)

/-- Whether annotations come next and then a package or a module. -/
def seesAnnotatedUnit : Parser Bool := do
  pure (← lookahead do
    let _ ← annotations self
    let tokens ← rest
    if tokenIs tokens 0 "package" || seesModule tokens then pure () else failure).isSome

/-- A package, an import or a module, with its annotations. -/
def unitDeclaration : Parser Forest := do
  let marks ← annotations self
  if seesModule (← rest) then pure (marks ++ (← moduleDeclaration))
  else pure (marks ++ (← namedDeclaration))

/-- A statement that begins with a keyword or symbol of its own. -/
def keywordStatement (word : String) : Option (Parser Forest) :=
  match word with
  | ";" => some do
    expect ";"
    pure []
  | "\x7b" => some (self .block)
  | "if" => some <| node .ifStatement do
    expect "if"
    let condition ← parenthesized self
    let yes ← self .statement
    if ← accept "else" then pure (condition ++ yes ++ (← self .statement))
    else pure (condition ++ yes)
  | "while" => some <| node .whileStatement do
    expect "while"
    let condition ← parenthesized self
    pure (condition ++ (← self .statement))
  | "do" => some <| node .doStatement do
    expect "do"
    let body ← self .statement
    expect "while"
    let condition ← parenthesized self
    expect ";"
    pure (body ++ condition)
  | "for" => some (forLoop self)
  | "switch" => some (switch self)
  | "try" => some (tryStatement self)
  | "synchronized" => some do
    expect "synchronized"
    let lock ← parenthesized self
    pure (lock ++ (← self .block))
  | "return" => some <| ended none do
    expect "return"
    if (← sees ";") || (← sees "\x7d") then pure [] else self .expression
  | "throw" => some <| ended none do
    expect "throw"
    self .expression
  | "import" | "package" => some (unitDeclaration self)
  | "break" => some <| ended none do
    expect "break"
    if ← seesWord then skip 1
    pure []
  | "continue" => some <| ended none do
    expect "continue"
    if ← seesWord then skip 1
    pure []
  | "assert" => some <| ended (some .assertStatement) do
    expect "assert"
    let condition ← self .expression
    if ← accept ":" then pure (condition ++ (← self .expression)) else pure condition
  | _ => none

/-- Any other statement: with a label, a declaration, or an expression. -/
def plainStatement : Parser Forest := do
  let tokens ← rest
  if seesYield tokens then
    ended none do
      skip 1
      self .expression
  else if nameAt tokens 0 && tokenIs tokens 1 ":" then
    node .labeledStatement do
      skip 2
      self .statement
  else if seesModule tokens || (← seesAnnotatedUnit self) then unitDeclaration self
  else if ← seesType self then typeWithModifiers self
  else if ← seesVariables self then
    let declared ← variableDeclaration self
    pure (declared ++ (← declarationEnd))
  else if seesTypeWord tokens || modifierLength tokens != 0 then failure
  else ended none (self .expression)

/-- Any statement. -/
def statementRule : Parser Forest := do
  match ← rest with
  | [] => failure
  | t :: r =>
    let special :=
      if t.kind == .literal then none
      else if t.is "synchronized" && !tokenIs r 0 "(" then none
      else keywordStatement self t.text
    match special with
    | some p => p
    | none => plainStatement self

/-- Statements in braces. -/
def blockRule : Parser Forest := do
  expect "\x7b"
  let inside ← many (do pure (!(← rest).isEmpty && !(← sees "\x7d"))) (self .statement)
  pure (inside ++ (← bodyEnd))

/-! ### Members of types -/

/-- The end of a method after its parameters: array brackets, exceptions, and a body or none. -/
def methodEnd : Parser Forest := do
  let brackets ← dimensions self
  let thrown ← typeList self "throws"
  if ← accept ";" then pure (brackets ++ thrown)
  else pure (brackets ++ thrown ++ (← self .block))

/-- The call of another constructor, with which the body of a constructor may begin. -/
def constructorCall : Parser Forest :=
  ended none do
    let own ← seesAny ["this", "super", "<"]
    let outer ←
      if own then pure []
      else
        let (_, outer) ← selected self
        expect "."
        pure outer
    let inside ← typeArguments self
    if !(← accept "super") && !(own && (← accept "this")) then failure
    pure (outer ++ inside ++ (← arguments self))

/-- The body of a constructor. -/
def constructorBody : Parser Forest := do
  expect "\x7b"
  let first := (← optional? (constructorCall self)).getD []
  let inside ← many (do pure (!(← rest).isEmpty && !(← sees "\x7d"))) (self .statement)
  pure (first ++ inside ++ (← bodyEnd))

/-- A method, a constructor or a field after its modifiers, which began at a mark. Interfaces have
no constructors. -/
def memberAfter (constructors : Bool) (start : Mark) (marks : Forest) : Parser Forest := do
  let generics ← typeParameters self
  let more ← annotations self
  let marks := marks ++ generics ++ more
  let tokens ← rest
  if constructors && nameAt tokens 0 && tokenIs tokens 1 "\x7b" then
    let declared ← take
    let body ← self .block
    build .constructor start (some (bytes declared)) (marks ++ body)
  else if constructors && nameAt tokens 0 && tokenIs tokens 1 "(" then
    let declared ← take
    let inside ← parameters self
    let thrown ← typeList self "throws"
    let body ← constructorBody self
    build .constructor start (some (bytes declared)) (marks ++ inside ++ thrown ++ body)
  else
    let type ← self .typeUse
    if tokenIs (← rest) 1 "(" then
      let declared ← declaredName
      let inside ← parameters self
      let rest_ ← methodEnd self
      build .method start (some (bytes declared)) (marks ++ type ++ inside ++ rest_)
    else
      let inside ← declarators self
      pure (marks ++ type ++ inside ++ (← declarationEnd))

/-- A member of a type other than a block. -/
def declaredMember (constructors : Bool) : Parser Forest := do
  let start ← here
  if ← accept ";" then pure []
  else
    let marks ← modifiers self
    if seesTypeWord (← rest) then pure (marks ++ (← typeDeclaration self))
    else memberAfter self constructors start marks

/-- A member of a class, an enumeration or a record. -/
def memberRule : Parser Forest := do
  if ← sees "\x7b" then self .block
  else if tokenIs (← rest) 0 "static" && tokenIs (← rest) 1 "\x7b" then
    skip 1
    self .block
  else declaredMember self true

/-- A member of an annotation type; its elements are no methods. -/
def annotationMemberRule : Parser Forest := do
  if ← accept ";" then pure []
  else
    let marks ← modifiers self
    if seesTypeWord (← rest) then pure (marks ++ (← typeDeclaration self))
    else
      let type ← self .typeUse
      if tokenIs (← rest) 1 "(" then
        let _ ← declaredName
        expect "("
        expect ")"
        let brackets ← dimensions self
        let value ← if ← accept "default" then self .elementValue else pure []
        expect ";"
        pure (marks ++ type ++ brackets ++ value)
      else
        let inside ← declarators self
        pure (marks ++ type ++ inside ++ (← declarationEnd))

/-- The body of a type with given members. -/
def bodyOf (member : Parser Forest) : Parser Forest := do
  expect "\x7b"
  let inside ← many (do pure (!(← rest).isEmpty && !(← sees "\x7d"))) member
  pure (inside ++ (← bodyEnd))

/-- The body of an enumeration: its constants, and members after a semicolon. -/
def enumBodyRule : Parser Forest := do
  expect "\x7b"
  let constants ← items do
    let marks ← modifiers self
    let _ ← declaredName
    let inside ← if ← sees "(" then arguments self else pure []
    let body ← if ← sees "\x7b" then self .typeBody else pure []
    pure (marks ++ inside ++ body)
  if ← accept ";" then
    let members ← many (do pure (!(← rest).isEmpty && !(← sees "\x7d"))) (self .member)
    pure (constants ++ members ++ (← bodyEnd))
  else pure (constants ++ (← bodyEnd))

/-- The rule of a goal. -/
def rule : Goal → Parser Forest
  | .expression => expressionRule self
  | .conditional => conditionalRule self
  | .operation level => operationRule self level
  | .unary => unaryRule self
  | .typeUse => typeRule self
  | .annotationUse => annotationRule self
  | .elementValue => elementValueRule self
  | .arrayValues => braced (initializer self)
  | .pattern => patternRule self
  | .block => blockRule self
  | .statement => statementRule self
  | .member => memberRule self
  | .annotationMember => annotationMemberRule self
  | .typeBody => bodyOf (self .member)
  | .interfaceBody => bodyOf (declaredMember self false)
  | .enumBody => enumBodyRule self

/-! ### Whole sources -/

/-- Whether a method comes next, with its modifiers. -/
def seesMethod : Parser Bool := do
  pure (← lookahead do
    let _ ← modifiers self
    let _ ← typeParameters self
    let _ ← self .typeUse
    let _ ← declaredName
    expect "(").isSome

/-- What stands at the top level: methods and statements. -/
def topLevel : Parser Forest := do
  let begun := match ← rest with
    | t :: r => (keywordStatement self t.text).isSome && !(t.is "synchronized" && !tokenIs r 0 "(")
    | [] => false
  if !begun && (← seesMethod self) then self .member else self .statement

end Rules

/-- The parser of a goal inside which other goals are nested at most to a depth. -/
def parseWithin : Nat → Goal → Parser Forest
  | 0, _ => failure
  | depth + 1, goal => rule (parseWithin depth) goal

/-- The parser of a whole source with a number of tokens. A goal reads a token before it comes to
itself again, so the number of tokens bounds the nesting. -/
def program (tokens : Nat) : Parser Forest :=
  many (do pure !(← rest).isEmpty) (topLevel (parseWithin (8 * tokens + 16)))

end SuiteMetrics.Java
