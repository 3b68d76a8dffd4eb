import SuiteMetrics.Decimal.Fixed

/-!
JSON values with the order of their keys.

A number is a whole number or a double, and the two are never mixed up: `1` and `1.0` are
different values. The fields of an object keep the order in which their keys were first inserted;
inserting under a key that is there replaces the value and keeps its place (`keys_insert`).
-/

namespace SuiteMetrics.Json

/-- A JSON number. -/
inductive Number where
  /-- A whole number written without point and exponent. -/
  | integer (n : Int)
  /-- A finite double. -/
  | real (x : Float)
  deriving Inhabited, BEq

/-- A JSON value. -/
inductive Value where
  | null
  | bool (b : Bool)
  | number (n : Number)
  | string (s : String)
  | array (items : List Value)
  | object (fields : List (String × Value))
  deriving Inhabited, BEq

/-- The fields of an object in order. -/
abbrev Fields := List (String × Value)

/-- The value under a key. -/
def Fields.get? (fields : Fields) (key : String) : Option Value := fields.lookup key

/-- The keys in order. -/
def Fields.keys (fields : Fields) : List String := fields.map Prod.fst

/-- The fields with a value put under a key: in place if the key is there, else at the end. -/
def Fields.insert : Fields → String → Value → Fields
  | [], key, value => [(key, value)]
  | (k, v) :: r, key, value =>
    if k = key then (k, value) :: r else (k, v) :: Fields.insert r key value

/-- Inserting a list of fields one after the other. -/
def Fields.insertAll (fields more : Fields) : Fields :=
  more.foldl (fun acc (key, value) => acc.insert key value) fields

theorem Fields.keys_insert (fields : Fields) (key : String) (value : Value) :
    (fields.insert key value).keys =
      if key ∈ fields.keys then fields.keys else fields.keys ++ [key] := by
  induction fields with
  | nil => simp [Fields.insert, Fields.keys]
  | cons f r ih =>
      obtain ⟨k, v⟩ := f
      by_cases h : k = key
      · simp [Fields.insert, Fields.keys, h]
      · have h' : key ≠ k := fun e => h e.symm
        simp only [Fields.insert, h, if_false, Fields.keys, List.map_cons, List.mem_cons, h',
          false_or] at ih ⊢
        rw [ih]
        split <;> simp [*]

theorem Fields.get?_insert (fields : Fields) (key other : String) (value : Value) :
    (fields.insert key value).get? other =
      if other = key then some value else fields.get? other := by
  induction fields with
  | nil =>
      by_cases h : other = key
      · simp [Fields.insert, Fields.get?, h]
      · simp [Fields.insert, Fields.get?, h]
  | cons f r ih =>
      obtain ⟨k, v⟩ := f
      simp only [Fields.get?] at ih
      by_cases h : k = key
      · subst h
        by_cases ho : other = k
        · simp [Fields.insert, Fields.get?, ho]
        · have : (other == k) = false := by simpa using ho
          simp [Fields.insert, Fields.get?, List.lookup_cons, ho, this]
      · simp only [Fields.insert, h, if_false, Fields.get?, List.lookup_cons]
        by_cases ho : other = k
        · subst ho
          simp [h]
        · have : (other == k) = false := by simpa using ho
          simp [this, ih]

namespace Value

/-- A count as a JSON number. -/
def ofNat (n : Nat) : Value := .number (.integer n)

/-- A double as a JSON number, and null for an infinity or a NaN. -/
def ofFloat (x : Float) : Value := if x.isFinite then .number (.real x) else .null

/-- A double that may be absent, which is null. -/
def ofFloat? : Option Float → Value
  | some x => ofFloat x
  | none => .null

/-- Whether a value is a number. -/
def isNumber : Value → Bool
  | .number _ => true
  | _ => false

/-- The fields of an object. -/
def fields? : Value → Option Fields
  | .object fields => some fields
  | _ => none

end Value

/-- The double nearest to a whole number. -/
def floatOfInt (n : Int) : Float :=
  if n < 0 then -(Float.ofNat n.natAbs) else Float.ofNat n.toNat

/-- A number as the nearest double. -/
def Number.toFloat : Number → Float
  | .integer n => floatOfInt n
  | .real x => x

end SuiteMetrics.Json
