import SuiteMetrics.Json.Value

/-!
Records in JSON.

A record has named parts in a fixed order. It is written as an object; read, it may also be an array
of all its parts in order. Parts that nobody knows are passed over. A part that may be left out is
null or not there. Each reader gives none for a value that does not have the form it reads.
-/

namespace SuiteMetrics.Json

namespace Value

/-- A count. -/
def nat? : Value → Option Nat
  | .number (.integer (.ofNat n)) => some n
  | _ => none

/-- A number as a double. -/
def real? : Value → Option Float
  | .number n => some n.toFloat
  | _ => none

/-- A text. -/
def text? : Value → Option String
  | .string s => some s
  | _ => none

/-- A truth value. -/
def bool? : Value → Option Bool
  | .bool b => some b
  | _ => none

/-- The elements of an array. -/
def items? : Value → Option (List Value)
  | .array items => some items
  | _ => none

/-- A list of things of one form. -/
def listOf? {α : Type} (read : Value → Option α) (v : Value) : Option (List α) :=
  v.items?.bind fun items => items.mapM read

/-- A list of texts. -/
def texts? (v : Value) : Option (List String) := v.listOf? text?

/-- Something with a written name: the name, or an object with the name as its only key and null
under it. -/
def named? {α : Type} (ofName? : String → Option α) : Value → Option α
  | .string name => ofName? name
  | .object [(name, .null)] => ofName? name
  | _ => none

/-- A list as an array. -/
def ofList {α : Type} (write : α → Value) (xs : List α) : Value := .array (xs.map write)

/-- Something that may be absent, which is null. -/
def ofOption {α : Type} (write : α → Value) : Option α → Value
  | some x => write x
  | none => .null

/-- The parts of a record with some names. -/
def parts? (names : List String) : Value → Option (List (Option Value))
  | .object fields => some (names.map fun name => Fields.get? fields name)
  | .array items => if items.length = names.length then some (items.map some) else none
  | _ => none

end Value

/-- A part that must be there. -/
def must {α : Type} (read : Value → Option α) (part : Option Value) : Option α := part.bind read

/-- A part that may be left out. -/
def may {α : Type} (read : Value → Option α) : Option Value → Option (Option α)
  | none => some none
  | some .null => some none
  | some v => (read v).map some

end SuiteMetrics.Json
