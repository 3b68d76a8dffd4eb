import SuiteMetrics.Proofs.Ascending
import SuiteMetrics.Proofs.TotalOrder

/-!
What an aggregator holds.

Everything that happens to an aggregator is a sequence of contributions: values filed under a slot,
or a refusal. `Aggregator.Holds` says that an aggregator is what a sequence of contributions makes
of it, up to the order of the values in each bucket. Every operation adds its own contributions
(`Holds.apply`), and merging puts two sequences together (`Holds.merge`). What can be seen of an
aggregator depends on the contributions alone, and not on their order (`Holds.agree`).
-/

namespace SuiteMetrics

/-! ### The order of slots -/

/-- A slot is ordered by its labels and by the place of its metric. -/
def Slot.rank (s : Slot) : List String ×ₗ Nat := toLex (s.key.labels, s.metric.rank)

theorem Slot.rank_injective : Function.Injective Slot.rank := by
  rintro ⟨⟨labels⟩, metric⟩ ⟨⟨labels'⟩, metric'⟩ h
  obtain ⟨same, rank⟩ := Prod.mk.inj (toLex.injective h)
  exact congrArg₂ Slot.mk (congrArg GroupKey.mk same) (Metric.rank_injective rank)

theorem Slot.rank_lt_iff {s t : Slot} : s.rank < t.rank ↔ s < t := by
  rw [Slot.rank, Slot.rank, Prod.Lex.toLex_lt_toLex]
  obtain ⟨⟨labels⟩, metric⟩ := s
  obtain ⟨⟨labels'⟩, metric'⟩ := t
  exact Iff.or Iff.rfl (and_congr_left' (by rw [GroupKey.mk.injEq]))

instance : IsStrictTotalOrder Slot (· < ·) :=
  RelEmbedding.isStrictTotalOrder ⟨⟨Slot.rank, Slot.rank_injective⟩, Slot.rank_lt_iff⟩

/-! ### Contributions -/

/-- What an aggregator is given at one time. -/
inductive Contribution where
  /-- Values for the bucket of a slot; with no values, the bucket is set up. -/
  | filed (slot : Slot) (values : List Float)
  /-- A record that is refused. -/
  | refusal

namespace Contribution

/-- Whether a contribution is for a slot. -/
def isFor (slot : Slot) : Contribution → Bool
  | .filed s _ => s = slot
  | .refusal => false

/-- The values of a contribution for a slot. -/
def valuesFor (slot : Slot) : Contribution → List Float
  | .filed s values => if s = slot then values else []
  | .refusal => []

/-- Whether a contribution is a refusal. -/
def isRefusal : Contribution → Bool
  | .filed _ _ => false
  | .refusal => true

/-- What contributions have put under a slot, if any was for it. -/
def collected (slot : Slot) (cs : List Contribution) : Option (Multiset Float) :=
  if cs.any (isFor slot) then some ↑(cs.flatMap (valuesFor slot)) else none

/-- Two collections of values put together. -/
def combine : Option (Multiset Float) → Option (Multiset Float) → Option (Multiset Float)
  | none, y => y
  | x, none => x
  | some xs, some ys => some (xs + ys)

@[simp] theorem combine_none (x : Option (Multiset Float)) : combine x none = x := by
  cases x <;> rfl

theorem valuesFor_eq_nil {slot : Slot} {c : Contribution} (h : c.isFor slot = false) :
    c.valuesFor slot = [] := by
  cases c with
  | filed s values =>
      have ne : s ≠ slot := of_decide_eq_false h
      exact if_neg ne
  | refusal => rfl

theorem flatMap_valuesFor_eq_nil {slot : Slot} {cs : List Contribution}
    (h : cs.any (isFor slot) = false) : cs.flatMap (valuesFor slot) = [] := by
  rw [List.any_eq_false] at h
  exact List.flatMap_eq_nil_iff.mpr fun c hc => valuesFor_eq_nil (Bool.eq_false_iff.mpr (h c hc))

theorem collected_append (slot : Slot) (cs ds : List Contribution) :
    collected slot (cs ++ ds) = combine (collected slot cs) (collected slot ds) := by
  simp only [collected, List.any_append, List.flatMap_append]
  cases hc : cs.any (isFor slot) with
  | false =>
      rw [flatMap_valuesFor_eq_nil hc]
      cases ds.any (isFor slot) <;> rfl
  | true =>
      cases hd : ds.any (isFor slot) with
      | false =>
          rw [flatMap_valuesFor_eq_nil hd, List.append_nil]
          rfl
      | true => rfl

theorem collected_of_perm {cs ds : List Contribution} (h : cs.Perm ds) (slot : Slot) :
    collected slot cs = collected slot ds := by
  have values : (cs.flatMap (valuesFor slot)).Perm (ds.flatMap (valuesFor slot)) :=
    h.flatMap_right _
  rw [collected, collected, h.any_eq, Multiset.coe_eq_coe.mpr values]

theorem collected_filed (slot s : Slot) (values : List Float) :
    collected slot [.filed s values] = if slot = s then some ↑values else none := by
  by_cases same : slot = s
  · simp [collected, isFor, valuesFor, same]
  · simp [collected, isFor, same, Ne.symm same]

theorem collected_refusal (slot : Slot) : collected slot [.refusal] = none := rfl

end Contribution

/-! ### Aggregators and contributions -/

/-- The values of a bucket, in whatever order they came. -/
def Bucket.contents (b : Bucket) : Multiset Float := b.values

namespace Aggregator

open Contribution (collected combine)

/-- The aggregator is what a sequence of contributions makes of it: its buckets stand in ascending
order, each slot has the values that were contributed for it, and the refusals are counted. -/
structure Holds (a : Aggregator) (cs : List Contribution) : Prop where
  ascending : Assoc.Ascending a.buckets
  values : ∀ slot, (Assoc.get? slot a.buckets).map Bucket.contents =
    collected slot cs
  refused : a.refused = UInt64.ofNat (cs.countP Contribution.isRefusal)

/-- The number of refusals is shown up to multiples of the counter's range. -/
theorem Holds.skipped {a : Aggregator} {cs : List Contribution} (h : a.Holds cs) :
    a.skipped = cs.countP Contribution.isRefusal % 2 ^ 64 := by
  rw [Aggregator.skipped, h.refused, UInt64.toNat_ofNat']

theorem Holds.new (keyLength : Nat) : (Aggregator.new keyLength).Holds [] where
  ascending := List.Pairwise.nil
  values _ := rfl
  refused := rfl

/-- The order of the contributions does not matter. -/
theorem Holds.of_perm {a : Aggregator} {cs ds : List Contribution} (h : a.Holds cs)
    (perm : cs.Perm ds) : a.Holds ds where
  ascending := h.ascending
  values slot := (h.values slot).trans (Contribution.collected_of_perm perm slot)
  refused := h.refused.trans (congrArg _ (perm.countP_eq _))

/-- Values put into one bucket are one more contribution. -/
theorem Holds.update {a : Aggregator} {cs : List Contribution} (h : a.Holds cs) (slot : Slot)
    (values : List Float) (change : Bucket → Bucket)
    (changed : ∀ b, (change b).values = values ++ b.values) :
    Holds { a with buckets := Buckets.update slot change a.buckets }
      (cs ++ [.filed slot values]) where
  ascending := Assoc.ascending_update _ _ h.ascending
  values s := by
    change (Assoc.get? s (Assoc.update slot _ a.buckets)).map _ = _
    rw [Assoc.get?_update _ _ h.ascending, Contribution.collected_append,
      Contribution.collected_filed, ← h.values]
    by_cases same : s = slot
    · subst same
      rw [if_pos rfl, if_pos rfl, Option.map_some, Bucket.contents, changed]
      cases Assoc.get? s a.buckets with
      | none => exact congrArg some (congrArg _ (List.append_nil values))
      | some b => exact congrArg some (Multiset.add_comm (values : Multiset Float) b.values)
    · rw [if_neg same, if_neg same, Contribution.combine_none]
  refused := by
    rw [List.countP_append, h.refused]
    rfl

/-- A refusal is one more contribution. -/
theorem Holds.refuse {a : Aggregator} {cs : List Contribution} (h : a.Holds cs) :
    Holds { a with refused := a.refused + 1 } (cs ++ [.refusal]) where
  ascending := h.ascending
  values slot := by
    rw [Contribution.collected_append, Contribution.collected_refusal, Contribution.combine_none]
    exact h.values slot
  refused := by
    rw [List.countP_append, UInt64.ofNat_add, ← h.refused]
    rfl

/-! ### Operations -/

end Aggregator

/-- What can be done to an aggregator by itself. -/
inductive Operation where
  | add (r : MetricRecord)
  | declare (key : GroupKey) (metric : Metric)

namespace Operation

/-- An aggregator after an operation. -/
def apply (a : Aggregator) : Operation → Aggregator
  | .add r => a.add r
  | .declare key metric => a.declare key metric

/-- What an operation contributes to an aggregator for keys of one length. -/
def contributions (keyLength : Nat) : Operation → List Contribution
  | .add r =>
    [if r.key.length = keyLength ∧ r.value.isFinite then .filed ⟨r.key, r.metric⟩ [r.value]
      else .refusal]
  | .declare key metric => if key.length = keyLength then [.filed ⟨key, metric⟩ []] else []

end Operation

namespace Aggregator

open Contribution (collected combine)

theorem accepts_iff {a : Aggregator} {r : MetricRecord} :
    a.accepts r ↔ r.key.length = a.keyLength ∧ r.value.isFinite := by
  rw [accepts, Bool.and_eq_true, beq_iff_eq]

theorem keyLength_apply (a : Aggregator) (op : Operation) :
    (op.apply a).keyLength = a.keyLength := by
  cases op with
  | add r =>
      simp only [Operation.apply, add]
      split
      · rfl
      · rfl
  | declare key metric =>
      simp only [Operation.apply, declare]
      split
      · rfl
      · rfl

/-- An operation adds its contribution. -/
theorem Holds.apply {a : Aggregator} {cs : List Contribution} (h : a.Holds cs) (op : Operation) :
    (op.apply a).Holds (cs ++ op.contributions a.keyLength) := by
  cases op with
  | add r =>
      simp only [Operation.apply, Operation.contributions, Aggregator.add, accepts_iff]
      split
      · exact h.update ⟨r.key, r.metric⟩ [r.value] _ fun _ => rfl
      · exact h.refuse
  | declare key metric =>
      simp only [Operation.apply, Operation.contributions, Aggregator.declare]
      split
      · exact h.update ⟨key, metric⟩ [] _ fun _ => rfl
      · rwa [List.append_nil]

/-- A sequence of operations adds the contributions of all. -/
theorem Holds.foldl_apply {a : Aggregator} {cs : List Contribution} (h : a.Holds cs)
    (ops : List Operation) :
    (ops.foldl Operation.apply a).keyLength = a.keyLength ∧
      (ops.foldl Operation.apply a).Holds
        (cs ++ ops.flatMap (Operation.contributions a.keyLength)) := by
  induction ops generalizing a cs with
  | nil => exact ⟨rfl, by rwa [List.flatMap_nil, List.append_nil]⟩
  | cons op ops ih =>
      obtain ⟨length, holds⟩ := ih (h.apply op)
      rw [keyLength_apply] at length holds
      refine ⟨length, ?_⟩
      rwa [List.flatMap_cons, ← List.append_assoc]

/-! ### Merging -/

/-- The buckets of an aggregator as contributions. -/
def filedBuckets (buckets : Buckets) : List Contribution :=
  buckets.map fun (slot, bucket) => .filed slot bucket.values

/-- Putting buckets into those of an aggregator contributes their values. -/
theorem Holds.foldl_update {a : Aggregator} {cs : List Contribution} (h : a.Holds cs)
    (buckets : Buckets) :
    Holds { a with
        buckets := buckets.foldl
          (fun acc (slot, bucket) => Buckets.update slot (fun b => b.merge bucket) acc) a.buckets }
      (cs ++ filedBuckets buckets) := by
  induction buckets generalizing a cs with
  | nil => rwa [filedBuckets, List.map_nil, List.append_nil]
  | cons e r ih =>
      obtain ⟨slot, bucket⟩ := e
      have step := ih (h.update slot bucket.values (fun b => b.merge bucket) fun _ => rfl)
      rwa [List.append_assoc] at step

/-- Buckets in ascending order, as contributions, put under each slot what the buckets hold. -/
theorem collected_filedBuckets {buckets : Buckets} (h : Assoc.Ascending buckets) (slot : Slot) :
    collected slot (filedBuckets buckets) =
      (Assoc.get? slot buckets).map Bucket.contents := by
  induction buckets with
  | nil => rfl
  | cons e r ih =>
      obtain ⟨s, bucket⟩ := e
      obtain ⟨first, rest⟩ := List.pairwise_cons.mp h
      change collected slot ([.filed s bucket.values] ++ filedBuckets r) = _
      rw [Contribution.collected_append, Contribution.collected_filed, ih rest, Assoc.get?_cons]
      split
      case isTrue same =>
          subst same
          rw [Assoc.get?_eq_none_of_lt first]
          rfl
      case isFalse => rfl

/-- A merged aggregator holds the contributions of both. -/
theorem Holds.merge {a b : Aggregator} {cs ds : List Contribution} (ha : a.Holds cs)
    (hb : b.Holds ds) : (a.merge b).Holds (cs ++ ds) := by
  have merged := ha.foldl_update b.buckets
  have same : ∀ slot, collected slot (cs ++ filedBuckets b.buckets) = collected slot (cs ++ ds) :=
    fun slot => by
      rw [Contribution.collected_append, Contribution.collected_append,
        collected_filedBuckets hb.ascending, hb.values]
  refine ⟨merged.ascending, fun slot => (merged.values slot).trans (same slot), ?_⟩
  rw [List.countP_append, UInt64.ofNat_add, ← ha.refused, ← hb.refused]
  rfl

/-! ### What can be seen -/

/-- The values under each slot, in whatever order. -/
def contents (a : Aggregator) : List (Slot × Multiset Float) :=
  a.buckets.map fun e => (e.1, e.2.contents)

theorem Holds.contents_eq {a b : Aggregator} {cs ds : List Contribution} (ha : a.Holds cs)
    (hb : b.Holds ds) (h : cs.Perm ds) : a.contents = b.contents := by
  refine Assoc.ascending_ext (Assoc.ascending_map ha.ascending) (Assoc.ascending_map hb.ascending)
    fun slot => ?_
  rw [contents, contents, Assoc.get?_map, Assoc.get?_map, ha.values, hb.values,
    Contribution.collected_of_perm h]

theorem size_eq_length_contents (a : Aggregator) : a.size = a.contents.length := by
  rw [size, contents, List.length_map]

theorem summaries_eq_map_contents [Arithmetic Float] (a : Aggregator) :
    a.summaries = a.contents.map fun (slot, values) =>
      ⟨slot.key, slot.metric, Summary.ofMultiset? values⟩ := by
  rw [summaries, contents, List.map_map]
  rfl

/-- Aggregators that hold the same contributions in any order cannot be told apart. -/
theorem Holds.agree [Arithmetic Float] {a b : Aggregator} {cs ds : List Contribution}
    (ha : a.Holds cs) (hb : b.Holds ds) (h : cs.Perm ds) :
    a.summaries = b.summaries ∧ a.size = b.size ∧ a.skipped = b.skipped := by
  have contents := ha.contents_eq hb h
  refine ⟨?_, ?_, ?_⟩
  · rw [summaries_eq_map_contents, summaries_eq_map_contents, contents]
  · rw [size_eq_length_contents, size_eq_length_contents, contents]
  · rw [ha.skipped, hb.skipped, h.countP_eq]

end Aggregator

end SuiteMetrics
