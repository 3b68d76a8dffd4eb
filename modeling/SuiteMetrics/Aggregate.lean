import SuiteMetrics.Assoc
import SuiteMetrics.Metric
import SuiteMetrics.Statistics

/-!
Values grouped by key and metric.

A group is identified by its key, a list of labels. An aggregator holds a bucket of values for
every pair of a key and a metric, in ascending order of the pairs, and counts the records that it
refused: those whose key has the wrong length or whose value is not finite. The counter has 64 bits
and starts again at zero after the last number. A bucket can be declared ahead, so that a group
without values still has a row. Aggregators are merged bucket by bucket. The arithmetic that
statistics use is a parameter, so that nothing is assumed of how doubles are rounded.
-/

namespace SuiteMetrics

/-- The labels that identify a group. -/
structure GroupKey where
  labels : List String
  deriving DecidableEq, Repr, Inhabited

/-- The number of labels. -/
def GroupKey.length (key : GroupKey) : Nat := key.labels.length

/-- The labels with slashes between them. -/
def GroupKey.text (key : GroupKey) : String := "/".intercalate key.labels

instance : LT GroupKey := ⟨fun a b => a.labels < b.labels⟩

instance (a b : GroupKey) : Decidable (a < b) :=
  inferInstanceAs (Decidable (a.labels < b.labels))

/-- A value of one metric for one group. -/
structure MetricRecord where
  key : GroupKey
  metric : Metric
  value : Float

/-- What a bucket is filed under. -/
structure Slot where
  key : GroupKey
  metric : Metric
  deriving DecidableEq, Repr

/-- Slots are ordered by key, and by metric where the keys are equal. -/
instance : LT Slot := ⟨fun a b => a.key < b.key ∨ (a.key = b.key ∧ a.metric.rank < b.metric.rank)⟩

instance (a b : Slot) : Decidable (a < b) :=
  inferInstanceAs (Decidable (a.key < b.key ∨ (a.key = b.key ∧ a.metric.rank < b.metric.rank)))

/-- The values collected for one slot. -/
structure Bucket where
  values : List Float
  deriving Inhabited

namespace Bucket

/-- A bucket without values. -/
def empty : Bucket := ⟨[]⟩

/-- A bucket with one more value. -/
def record (b : Bucket) (value : Float) : Bucket := ⟨value :: b.values⟩

/-- The values of two buckets. -/
def merge (b other : Bucket) : Bucket := ⟨other.values ++ b.values⟩

/-- The number of values. -/
def count (b : Bucket) : Nat := b.values.length

/-- The statistics of the values, if there are any. -/
def summary? [Arithmetic Float] (b : Bucket) : Option (Summary Float) := Summary.ofValues? b.values

end Bucket

/-- Buckets in ascending order of their slots. -/
abbrev Buckets := List (Slot × Bucket)

/-- The buckets after the one of a slot has been changed; a slot without a bucket gets an empty one
first. -/
def Buckets.update (slot : Slot) (change : Bucket → Bucket) (buckets : Buckets) : Buckets :=
  Assoc.update slot (fun bucket => change (bucket.getD .empty)) buckets

/-- Buckets of records that all have keys of one length. -/
structure Aggregator where
  keyLength : Nat
  buckets : Buckets
  /-- Counts the refused records. -/
  refused : UInt64

/-- One row of the grouped statistics. -/
structure SummaryRow where
  key : GroupKey
  metric : Metric
  /-- Absent when the group has no value of the metric. -/
  summary : Option (Summary Float)

namespace Aggregator

/-- An aggregator without buckets for keys of one length. -/
def new (keyLength : Nat) : Aggregator := ⟨keyLength, [], 0⟩

/-- The number of buckets. -/
def size (a : Aggregator) : Nat := a.buckets.length

/-- What the counter of refused records shows. -/
def skipped (a : Aggregator) : Nat := a.refused.toNat

/-- Whether a record is taken. -/
def accepts (a : Aggregator) (r : MetricRecord) : Bool :=
  r.key.length == a.keyLength && r.value.isFinite

/-- A record is put into its bucket, or refused and counted. -/
def add (a : Aggregator) (r : MetricRecord) : Aggregator :=
  if a.accepts r then
    { a with buckets := Buckets.update ⟨r.key, r.metric⟩ (fun b => b.record r.value) a.buckets }
  else { a with refused := a.refused + 1 }

/-- A bucket is set up, if the key has the right length. -/
def declare (a : Aggregator) (key : GroupKey) (metric : Metric) : Aggregator :=
  if key.length = a.keyLength then { a with buckets := Buckets.update ⟨key, metric⟩ id a.buckets }
  else a

/-- The buckets and refusals of another aggregator are added. -/
def merge (a other : Aggregator) : Aggregator :=
  { a with
    buckets := other.buckets.foldl
      (fun acc (slot, bucket) => Buckets.update slot (fun b => b.merge bucket) acc) a.buckets
    refused := a.refused + other.refused }

/-- A row for every bucket in order. -/
def summaries [Arithmetic Float] (a : Aggregator) : List SummaryRow :=
  a.buckets.map fun (slot, bucket) => ⟨slot.key, slot.metric, bucket.summary?⟩

end Aggregator

end SuiteMetrics
