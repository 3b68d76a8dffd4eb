import SuiteMetrics.Decimal.Binary64

/-!
Statistics of a list of values.

The values are put in ascending order first and every statistic is taken from the ordered list, so
none depends on the order in which the values came. Statistics need little of the values: an order,
and an arithmetic with sums and division by a count. They are stated for any type with these, and
used on doubles.
An empty list has no statistics, which is not the same as statistics of zero.
-/

namespace SuiteMetrics

/-- The order by which values are sorted. -/
class SortOrder (α : Type) where
  le : α → α → Bool

/-- Sums of values, and sums shared out. -/
class Arithmetic (α : Type) where
  /-- The sum of no values. -/
  emptySum : α
  add : α → α → α
  /-- A sum shared out among a number of values. -/
  share : α → Nat → α

/-- Doubles are sorted by their total order. -/
instance : SortOrder Float := ⟨Decimal.totalLe⟩

/-- The arithmetic of doubles; a sum of no values is the negative zero, which no summand changes. -/
instance : Arithmetic Float where
  emptySum := -0.0
  add x y := x + y
  share x n := x / Float.ofNat n

namespace Statistics

variable {α : Type}

/-- Values in ascending order. -/
def sorted [SortOrder α] (values : List α) : List α := values.mergeSort SortOrder.le

/-- The first of ordered values. -/
def min? (values : List α) : Option α := values.head?

/-- The last of ordered values. -/
def max? (values : List α) : Option α := values.getLast?

variable [Arithmetic α]

/-- The sum of values, from the first to the last. -/
def sum (values : List α) : α := values.foldl Arithmetic.add Arithmetic.emptySum

/-- The sum of ordered values, if there is one. -/
def total? (values : List α) : Option α := if values.isEmpty then none else some (sum values)

/-- The sum shared out among the values. -/
def mean? (values : List α) : Option α :=
  (total? values).map fun total => Arithmetic.share total values.length

/-- The middle one of ordered values, or the mean of the two in the middle. -/
def median? (values : List α) : Option α :=
  let middle := values.length / 2
  if values.length % 2 = 1 then values[middle]?
  else if values.isEmpty then none
  else do
    let low ← values[middle - 1]?
    let high ← values[middle]?
    pure (Arithmetic.share (Arithmetic.add low high) 2)

end Statistics

/-- The statistics of a list that is not empty. -/
structure Summary (α : Type) where
  count : Nat
  mean : α
  min : α
  max : α
  median : α
  total : α
  deriving Repr

/-- The statistics of a list of values in any order, if it is not empty. -/
def Summary.ofValues? {α : Type} [SortOrder α] [Arithmetic α] (values : List α) :
    Option (Summary α) := do
  let ordered := Statistics.sorted values
  pure {
    count := ordered.length
    mean := ← Statistics.mean? ordered
    min := ← Statistics.min? ordered
    max := ← Statistics.max? ordered
    median := ← Statistics.median? ordered
    total := ← Statistics.total? ordered }

end SuiteMetrics
