import SuiteMetrics.Proofs.DoubleArithmetic
import SuiteMetrics.Proofs.KeyColumns
import SuiteMetrics.Proofs.MergePlan
import SuiteMetrics.Proofs.SummaryMeaning

/-!
Groups whose statistics are null.

A group without values has no statistics, and its row has nulls in their place. Every value of a
group is finite, so the least and the greatest are numbers, and the median lies between them
(`Summary.median_isFinite_iff`). But the sum of finite values may be too large for a double. It is
infinite then, and so are the mean and the median that are shared out from it. In the row an
infinite statistic is null as well, so a null does not tell that there are no values
(`statistics_null_iff`). Values of moderate size have no such sums
(`Statistics.sumsFit_of_bounded`).
-/

namespace SuiteMetrics

open Decimal (value)
open Json (Value Fields)

/-! ### Sums that fit -/

namespace Statistics

/-- The sum of the two middle values, if their number is even, is not too large for a double. -/
def MiddleFits (values : List Float) : Prop :=
  values.length % 2 = 0 → ∀ low high, (sorted values)[values.length / 2 - 1]? = some low →
    (sorted values)[values.length / 2]? = some high → (low + high).isFinite = true

/-- No sum that the statistics of values need is too large for a double. -/
structure SumsFit (values : List Float) : Prop where
  total : (sum (sorted values)).isFinite = true
  middle : MiddleFits values

end Statistics

/-- A finite sum and one more value are added to a finite sum, as long as the bound of the values
times their number is a double. -/
theorem add_within {x y : Float} {n p : Nat} (hx : x.isFinite = true) (hy : y.isFinite = true)
    (xs : |value x| ≤ n * 2 ^ p) (ys : |value y| ≤ 2 ^ p) (few : n + 1 < 2 ^ 53)
    (small : ((n + 1 : Nat) : ℚ) * 2 ^ p < 2 ^ 1024) :
    (x + y).isFinite = true ∧ |value (x + y)| ≤ (n + 1 : Nat) * 2 ^ p := by
  have bound : Decimal.Representable ((n + 1 : Nat) * 2 ^ p) :=
    ⟨(n + 1 : Nat), p, few, by omega, by rw [zpow_natCast, Int.cast_natCast]⟩
  have sum := Decimal.rounds_add hx hy
  obtain ⟨below, above⟩ := abs_le.mp xs
  obtain ⟨below', above'⟩ := abs_le.mp ys
  have lower : -((n + 1 : Nat) * 2 ^ p : ℚ) ≤ value x + value y := by
    push_cast
    linarith
  have upper : value x + value y ≤ (n + 1 : Nat) * 2 ^ p := by
    push_cast
    linarith
  have magnitude : |((n + 1 : Nat) * 2 ^ p : ℚ)| < 2 ^ 1024 := by
    rwa [abs_of_nonneg (by positivity)]
  have finite := sum.isFinite_of_between bound.neg bound (by rwa [abs_neg]) magnitude lower upper
  have nearest := sum.nearest finite
  exact ⟨finite, abs_le.mpr ⟨nearest.le_of_le bound.neg lower, nearest.ge_of_ge bound upper⟩⟩

theorem foldl_add_isFinite {xs : List Float} {x : Float} {n p : Nat} (hx : x.isFinite = true)
    (within : |value x| ≤ n * 2 ^ p) (finite : ∀ y ∈ xs, y.isFinite = true)
    (bounded : ∀ y ∈ xs, |value y| ≤ 2 ^ p) (few : n + xs.length < 2 ^ 53)
    (small : ((n + xs.length : Nat) : ℚ) * 2 ^ p < 2 ^ 1024) :
    (xs.foldl Arithmetic.add x).isFinite = true := by
  induction xs generalizing x n with
  | nil => exact hx
  | cons y ys ih =>
      rw [List.length_cons, ← Nat.add_assoc, Nat.add_right_comm] at few small
      have first : ((n + 1 : Nat) : ℚ) * 2 ^ p < 2 ^ 1024 := by
        refine lt_of_le_of_lt (mul_le_mul_of_nonneg_right ?_ (by positivity)) small
        exact_mod_cast Nat.le_add_right _ _
      obtain ⟨sum, sumWithin⟩ := add_within hx (finite y List.mem_cons_self) within
        (bounded y List.mem_cons_self) (by omega) first
      exact ih sum sumWithin (fun z hz => finite z (List.mem_cons_of_mem _ hz))
        (fun z hz => bounded z (List.mem_cons_of_mem _ hz)) few small

/-- Values need no sum that is too large if their bound times their number is a double. -/
theorem Statistics.sumsFit_of_bounded {values : List Float} {p : Nat}
    (finite : ∀ x ∈ values, x.isFinite = true) (bounded : ∀ x ∈ values, |value x| ≤ 2 ^ p)
    (few : values.length < 2 ^ 53) (small : (values.length : ℚ) * 2 ^ p < 2 ^ 1024) :
    SumsFit values := by
  have perm := sorted_perm values
  refine ⟨foldl_add_isFinite (n := 0) (p := p) rfl ?_ ?_ ?_ ?_ ?_, ?_⟩
  · have nothing : value (Arithmetic.emptySum : Float) = 0 := Decimal.value_eq _
    rw [nothing, abs_zero, Nat.cast_zero, zero_mul]
  · exact fun x hx => finite x (perm.mem_iff.mp hx)
  · exact fun x hx => bounded x (perm.mem_iff.mp hx)
  · rwa [Nat.zero_add, perm.length_eq]
  · rwa [Nat.zero_add, perm.length_eq]
  · intro even low high hlow hhigh
    have lowMem := perm.mem_iff.mp (List.mem_of_getElem? hlow)
    have highMem := perm.mem_iff.mp (List.mem_of_getElem? hhigh)
    have two : 1 + 1 ≤ values.length := by
      have pos := List.length_pos_of_mem lowMem
      omega
    have sum : ((1 + 1 : Nat) : ℚ) * 2 ^ p < 2 ^ 1024 := by
      refine lt_of_le_of_lt (mul_le_mul_of_nonneg_right ?_ (by positivity)) small
      exact_mod_cast two
    have single : |value low| ≤ (1 : Nat) * 2 ^ p := by
      rw [Nat.cast_one, one_mul]
      exact bounded low lowMem
    exact (add_within (finite low lowMem) (finite high highMem) single (bounded high highMem)
      (by decide) sum).1

namespace Summary

variable {values : List Float} {s : Summary Float}

theorem total_eq (h : ofValues? values = some s) :
    s.total = Statistics.sum (Statistics.sorted values) := by
  obtain ⟨-, -, -, -, -, total⟩ := parts_of_ofValues? h
  rw [Statistics.total?, Option.ite_none_left_eq_some] at total
  exact (Option.some.inj total.2).symm

theorem mean_isFinite_iff (h : ofValues? values = some s) :
    s.mean.isFinite = true ↔ s.total.isFinite = true := by
  have describes := describes_of_ofValues? h
  have share : s.mean = s.total / Float.ofNat values.length := describes.mean
  rw [share]
  exact ⟨Decimal.isFinite_of_div, fun total =>
    Decimal.isFinite_div_ofNat total (List.length_pos_of_mem describes.min_mem)⟩

/-- Values lie between the least and the greatest. -/
theorem value_between (h : ofValues? values = some s)
    (finite : ∀ x ∈ values, x.isFinite = true) {x : Float} (hx : x ∈ values) :
    Decimal.value s.min ≤ Decimal.value x ∧ Decimal.value x ≤ Decimal.value s.max := by
  have describes := describes_of_ofValues? h
  obtain ⟨low, high⟩ := describes.between x hx
  exact ⟨Decimal.value_mono (finite _ describes.min_mem) (finite x hx) low,
    Decimal.value_mono (finite x hx) (finite _ describes.max_mem) high⟩

/-- The median lies between the least and the greatest value, unless the sum of the two middle
values is too large. -/
theorem median_isFinite_iff (h : ofValues? values = some s)
    (finite : ∀ x ∈ values, x.isFinite = true) :
    (s.median.isFinite = true ↔ Statistics.MiddleFits values) ∧
    (s.median.isFinite = true → Decimal.value s.min ≤ Decimal.value s.median ∧
      Decimal.value s.median ≤ Decimal.value s.max) := by
  have describes := describes_of_ofValues? h
  have perm := Statistics.sorted_perm values
  obtain ⟨-, -, -, -, median, -⟩ := parts_of_ofValues? h
  rw [Statistics.median?, perm.length_eq] at median
  by_cases odd : values.length % 2 = 1
  · have mem := (describes.median_odd odd).1
    exact ⟨iff_of_true (finite _ mem) fun even => by omega, fun _ => value_between h finite mem⟩
  · have pos := List.length_pos_of_mem describes.min_mem
    have some_ : ¬ (Statistics.sorted values).isEmpty = true := by
      rw [List.isEmpty_iff_length_eq_zero, perm.length_eq]
      omega
    rw [if_neg odd, if_neg some_] at median
    simp only [Option.bind_eq_bind, Option.bind_eq_some_iff] at median
    obtain ⟨low, hlow, high, hhigh, made⟩ := median
    have half : s.median = (low + high) / Float.ofNat 2 := (Option.some.inj made).symm
    have lowMem := perm.mem_iff.mp (List.mem_of_getElem? hlow)
    have highMem := perm.mem_iff.mp (List.mem_of_getElem? hhigh)
    rw [half]
    refine ⟨⟨fun fits _ low' high' hlow' hhigh' => ?_, fun fits => ?_⟩, fun fits => ?_⟩
    · obtain rfl := Option.some.inj (hlow.symm.trans hlow')
      obtain rfl := Option.some.inj (hhigh.symm.trans hhigh')
      exact Decimal.isFinite_of_div fits
    · exact Decimal.isFinite_div_ofNat (fits (by omega) low high hlow hhigh) (by decide)
    · exact Decimal.half_sum_between (finite _ describes.min_mem) (finite _ describes.max_mem)
        (finite _ lowMem) (finite _ highMem) (Decimal.isFinite_of_div fits)
        (value_between h finite lowMem) (value_between h finite highMem)

end Summary

/-! ### Buckets -/

/-- What an operation files is finite. -/
theorem Operation.isFinite_of_filed {op : Operation} {keyLength : Nat} {slot : Slot}
    {values : List Float} (h : .filed slot values ∈ op.contributions keyLength) :
    ∀ x ∈ values, x.isFinite = true := by
  cases op with
  | add r =>
      simp only [contributions, List.mem_singleton] at h
      split at h
      case isTrue fits =>
          cases h
          intro x hx
          rw [List.mem_singleton.mp hx]
          exact fits.2
      case isFalse => cases h
  | declare key metric =>
      simp only [contributions] at h
      split at h
      · cases List.mem_singleton.mp h
        intro x hx
        cases hx
      · cases h

/-- All values in the buckets of a plan's aggregator are finite. -/
theorem Plan.isFinite_of_filed {p : Plan} {keyLength : Nat} {slot : Slot} {bucket : Bucket}
    (filed : (slot, bucket) ∈ (p.run keyLength).buckets) :
    ∀ x ∈ bucket.values, x.isFinite = true := by
  have holds := p.holds_run keyLength
  have held := holds.values slot
  rw [(Assoc.mem_iff_get? holds.ascending).mp filed, Contribution.collected] at held
  split at held
  case isTrue =>
      intro x hx
      have perm : bucket.values.Perm _ := Multiset.coe_eq_coe.mp (Option.some.inj held)
      obtain ⟨c, hc, mem⟩ := List.mem_flatMap.mp (perm.mem_iff.mp hx)
      obtain ⟨op, -, contributed⟩ := List.mem_flatMap.mp hc
      cases c with
      | filed s values =>
          rw [Contribution.valuesFor, List.mem_ite_nil_right] at mem
          exact Operation.isFinite_of_filed contributed x mem.2
      | refusal => cases mem
  case isFalse => cases held

namespace Report

/-! ### Rows -/

/-- The statistics of a row but for the count. -/
def statisticNames : List String := ["mean", "min", "max", "median", "total"]

/-- All statistics of a row are null. -/
def NoStatistics (fields : Fields) : Prop :=
  ∀ name ∈ statisticNames, fields.get? name = some .null

/-- All statistics of a row are numbers, and the median lies between the least and the greatest
value. -/
def AllStatistics (fields : Fields) : Prop :=
  ∃ mean min max median total : Float,
    fields.get? "mean" = some (.number (.real mean)) ∧
    fields.get? "min" = some (.number (.real min)) ∧
    fields.get? "max" = some (.number (.real max)) ∧
    fields.get? "median" = some (.number (.real median)) ∧
    fields.get? "total" = some (.number (.real total)) ∧
    Decimal.value min ≤ Decimal.value median ∧ Decimal.value median ≤ Decimal.value max

/-- The columns of the statistics are read as they are, whatever the labels of the key. -/
theorem get?_summaryRow (labels : List String) (row : SummaryRow) {name : String} {v : Value}
    (mem : (name, v) ∈ statisticsColumns row.summary) :
    (summaryRow labels row).get? name = some v := by
  have distinct : ["metric", "count", "mean", "min", "max", "median", "total"].Nodup := by decide
  refine Fields.get?_insertAll_of_nodup ?_ (List.mem_cons_of_mem _ mem)
  cases row.summary with
  | none => exact distinct
  | some s => exact distinct

theorem ofFloat_eq_number_iff {x y : Float} :
    Value.ofFloat x = .number (.real y) ↔ x.isFinite = true ∧ x = y := by
  rw [Value.ofFloat]
  split
  case isTrue finite => simp [finite]
  case isFalse infinite => simp [infinite]

theorem noStatistics_of_none (labels : List String) {row : SummaryRow} (h : row.summary = none) :
    NoStatistics (summaryRow labels row) := by
  intro name mem
  refine get?_summaryRow labels row ?_
  rw [h, statisticsColumns]
  exact List.mem_cons_of_mem _ (List.mem_map.mpr ⟨name, mem, rfl⟩)

theorem allStatistics_iff (labels : List String) {row : SummaryRow} {s : Summary Float}
    (h : row.summary = some s) :
    AllStatistics (summaryRow labels row) ↔
      (s.mean.isFinite = true ∧ s.min.isFinite = true ∧ s.max.isFinite = true ∧
        s.median.isFinite = true ∧ s.total.isFinite = true) ∧
        Decimal.value s.min ≤ Decimal.value s.median ∧
        Decimal.value s.median ≤ Decimal.value s.max := by
  have read (name : String) (v : Value) (mem : (name, v) ∈ statisticsColumns (some s)) :
      (summaryRow labels row).get? name = some v := get?_summaryRow labels row (h ▸ mem)
  rw [AllStatistics, read "mean" (.ofFloat s.mean) (by simp [statisticsColumns]),
    read "min" (.ofFloat s.min) (by simp [statisticsColumns]),
    read "max" (.ofFloat s.max) (by simp [statisticsColumns]),
    read "median" (.ofFloat s.median) (by simp [statisticsColumns]),
    read "total" (.ofFloat s.total) (by simp [statisticsColumns])]
  simp only [Option.some.injEq, ofFloat_eq_number_iff]
  constructor
  · rintro ⟨_, _, _, _, _, ⟨mean, rfl⟩, ⟨min, rfl⟩, ⟨max, rfl⟩, ⟨median, rfl⟩, ⟨total, rfl⟩, order⟩
    exact ⟨⟨mean, min, max, median, total⟩, order⟩
  · rintro ⟨⟨mean, min, max, median, total⟩, order⟩
    exact ⟨_, _, _, _, _, ⟨mean, rfl⟩, ⟨min, rfl⟩, ⟨max, rfl⟩, ⟨median, rfl⟩, ⟨total, rfl⟩, order⟩

variable {values : List Float} {row : SummaryRow}

theorem statistics_of_no_values (labels : List String) (h : row.summary = none) :
    (summaryRow labels row).get? "count" = some (.ofNat 0) ∧
      NoStatistics (summaryRow labels row) ∧ ¬ AllStatistics (summaryRow labels row) := by
  have nulls := noStatistics_of_none labels h
  refine ⟨get?_summaryRow labels row (h ▸ List.mem_cons_self), nulls, ?_⟩
  rintro ⟨mean, _, _, _, _, read, -⟩
  rw [nulls "mean" (by decide)] at read
  cases read

theorem statistics_of_some_values (labels : List String) {s : Summary Float}
    (present : row.summary = some s) (h : Summary.ofValues? values = some s)
    (finite : ∀ x ∈ values, x.isFinite = true) :
    (summaryRow labels row).get? "count" = some (.ofNat values.length) ∧
      ¬ NoStatistics (summaryRow labels row) ∧
      (AllStatistics (summaryRow labels row) ↔ Statistics.SumsFit values) := by
  have describes := Summary.describes_of_ofValues? h
  have median := Summary.median_isFinite_iff h finite
  have least := finite _ describes.min_mem
  have greatest := finite _ describes.max_mem
  refine ⟨?_, fun nulls => ?_, ?_⟩
  · rw [← describes.count]
    exact get?_summaryRow labels row (present ▸ List.mem_cons_self)
  · have column : ("min", Value.ofFloat s.min) ∈ statisticsColumns row.summary := by
      rw [present]
      simp [statisticsColumns]
    have read := nulls "min" (by decide)
    rw [get?_summaryRow labels row column, Value.ofFloat, if_pos least] at read
    cases read
  · rw [allStatistics_iff labels present, Summary.mean_isFinite_iff h, median.1,
      Summary.total_eq h]
    constructor
    · rintro ⟨⟨-, -, -, middle, total⟩, -⟩
      exact ⟨total, middle⟩
    · rintro ⟨total, middle⟩
      exact ⟨⟨total, least, greatest, middle, total⟩, median.2 (median.1.mpr middle)⟩

end Report

/-- The statistics of a group are null if it has no value. If it has values they are numbers in
order, unless a sum of them is too large for a double, though all values are finite. -/
theorem statistics_null_iff (keyLength : Nat) (p : Plan) (labels : List String) {fields : Fields}
    (mem : fields ∈ Report.summaryRows labels (p.run keyLength).summaries) :
    ∃ slot bucket, (slot, bucket) ∈ (p.run keyLength).buckets ∧
      fields = Report.summaryRow labels ⟨slot.key, slot.metric, bucket.summary?⟩ ∧
      fields.get? "count" = some (.ofNat bucket.count) ∧
      (Report.NoStatistics fields ↔ bucket.count = 0) ∧
      (Report.AllStatistics fields ↔ bucket.count ≠ 0 ∧ Statistics.SumsFit bucket.values) := by
  obtain ⟨row, summarized, rfl⟩ := List.mem_map.mp mem
  obtain ⟨⟨slot, bucket⟩, filed, rfl⟩ := List.mem_map.mp summarized
  refine ⟨slot, bucket, filed, rfl, ?_⟩
  cases h : bucket.summary? with
  | none =>
      have empty : bucket.count = 0 := by
        rw [Bucket.count, Summary.ofValues?_eq_none_iff.mp h]
        rfl
      let row : SummaryRow := ⟨slot.key, slot.metric, bucket.summary?⟩
      have absent : row.summary = none := h
      obtain ⟨count, nulls, notAll⟩ := Report.statistics_of_no_values labels absent
      rw [empty]
      exact ⟨count, iff_of_true nulls rfl, iff_of_false notAll fun filled => filled.1 rfl⟩
  | some s =>
      let row : SummaryRow := ⟨slot.key, slot.metric, bucket.summary?⟩
      have present : row.summary = some s := h
      obtain ⟨count, notNull, all⟩ :=
        Report.statistics_of_some_values labels present h (Plan.isFinite_of_filed filed)
      have pos : bucket.count ≠ 0 :=
        (List.length_pos_of_mem (Summary.describes_of_ofValues? h).min_mem).ne'
      exact ⟨count, iff_of_false notNull pos, all.trans (iff_and_self.mpr fun _ => pos)⟩

/-- One group without values, and one with a single value. -/
def declaredPlan : Plan :=
  .perform (.perform .fresh (.declare ⟨["d"]⟩ .cognitive)) (.add ⟨⟨["d"]⟩, .readability, 0.5⟩)

theorem statistics_null_iff_oneValue :
    let fields := Report.summaryRow ["dataset"] ⟨⟨["d"]⟩, .readability, Summary.ofValues? [0.5]⟩
    fields ∈ Report.summaryRows ["dataset"] (declaredPlan.run 1).summaries ∧
      ∃ slot bucket, (slot, bucket) ∈ (declaredPlan.run 1).buckets ∧
        fields = Report.summaryRow ["dataset"] ⟨slot.key, slot.metric, bucket.summary?⟩ ∧
        fields.get? "count" = some (.ofNat bucket.count) ∧
        (Report.NoStatistics fields ↔ bucket.count = 0) ∧
        (Report.AllStatistics fields ↔
          bucket.count ≠ 0 ∧ Statistics.SumsFit bucket.values) := by
  intro fields
  have buckets : (declaredPlan.run 1).buckets =
      [(⟨⟨["d"]⟩, .cognitive⟩, ⟨[]⟩), (⟨⟨["d"]⟩, .readability⟩, ⟨[0.5]⟩)] := rfl
  have mem : fields ∈ Report.summaryRows ["dataset"] (declaredPlan.run 1).summaries := by
    rw [Aggregator.summaries, buckets]
    exact List.mem_cons_of_mem _ List.mem_cons_self
  exact ⟨mem, statistics_null_iff 1 declaredPlan ["dataset"] mem⟩

/-- Four finite values with a finite sum, of which the two in the middle have none. -/
def largeValues : List Float := [-1.79e308, 9e307, 9e307, 9e307]

/-- One group with these values. -/
def largePlan : Plan :=
  largeValues.foldl (fun p x => .perform p (.add ⟨⟨["d"]⟩, .readability, x⟩)) .fresh

/-- Four values are counted and have no median. -/
theorem largeValues_have_no_median :
    ∃ fields ∈ Report.summaryRows ["dataset"] (largePlan.run 1).summaries,
      fields.get? "count" = some (.ofNat 4) ∧ fields.get? "median" = some .null := by
  have filed : (largePlan.run 1).buckets.map (fun e => (e.1, e.2.values)) =
      [(⟨⟨["d"]⟩, .readability⟩, largeValues.reverse)] := by decide +kernel
  obtain ⟨⟨slot, ⟨values⟩⟩, buckets, same⟩ := List.map_eq_singleton_iff.mp filed
  obtain rfl : slot = ⟨⟨["d"]⟩, .readability⟩ := congrArg Prod.fst same
  obtain rfl : values = largeValues.reverse := congrArg Prod.snd same
  obtain ⟨s, present, count⟩ :=
    Summary.ofValues?_of_ne_nil (List.reverse_ne_nil_iff.mpr (List.cons_ne_nil _ _) :
      largeValues.reverse ≠ [])
  have ascending : largeValues.Pairwise fun x y => SortOrder.le x y = true := by decide +kernel
  have median := (Summary.parts_of_ofValues? present).2.2.2.2.1
  rw [Statistics.sorted_eq_of_ascending largeValues.reverse_perm ascending] at median
  have half : s.median = (9e307 + 9e307) / Float.ofNat 2 := (Option.some.inj median).symm
  have infinite : ((9e307 + 9e307) / Float.ofNat 2).isFinite = false := by decide +kernel
  have null : Value.ofFloat s.median = .null := by
    rw [half, Value.ofFloat, infinite]
    rfl
  refine ⟨Report.summaryRow ["dataset"] ⟨⟨["d"]⟩, .readability, some s⟩, ?_, ?_, ?_⟩
  · rw [Aggregator.summaries, buckets, ← present]
    exact List.mem_cons_self
  · have four : s.count = 4 := count
    rw [← four]
    exact Report.get?_summaryRow _ _ List.mem_cons_self
  · rw [← null]
    exact Report.get?_summaryRow _ _ (by simp [Report.statisticsColumns])

end SuiteMetrics
