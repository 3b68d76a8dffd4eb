import SuiteMetrics.Proofs.ExactValue

/-!
What the statistics of values are.

Values that are sorted have the ranks of their positions, counted with equal values apart
(`ranked_of_ascending`). So the statistics can be told without sorting: the least and the greatest
value, one value in the middle or the two that enclose it, the sum in ascending order and its share
(`Summary.Describes`). All of this holds of any linear order and any arithmetic.

The same statistics of the exact values of finite doubles are rational numbers. There the median and
the mean lie between the least and the greatest value, and the total is the sum
(`Summary.ReadsExactly`).
-/

namespace SuiteMetrics

/-! ### Ranks -/

section Ranks

variable {α : Type} [SortOrder α] {values : List α} {rank : Nat} {value : α}

/-- The value is the `rank`-th smallest of a list in which equal values have a rank each. -/
structure Ranked (values : List α) (rank : Nat) (value : α) : Prop where
  mem : value ∈ values
  below : values.countP (fun x => !SortOrder.le value x) < rank
  notAbove : rank ≤ values.countP fun x => SortOrder.le x value

theorem Ranked.of_perm {xs ys : List α} (h : Ranked xs rank value) (perm : xs.Perm ys) :
    Ranked ys rank value where
  mem := perm.mem_iff.mp h.mem
  below := perm.countP_eq _ ▸ h.below
  notAbove := perm.countP_eq _ ▸ h.notAbove

/-- All but the values of smaller ranks are not below a value. -/
theorem Ranked.notBelow (h : Ranked values rank value) :
    values.length < rank + values.countP fun x => SortOrder.le value x := by
  have parts := List.length_eq_countP_add_countP (fun x => SortOrder.le value x) (l := values)
  have below := h.below
  simp only [Bool.not_eq_true, Bool.decide_eq_false] at parts
  omega

variable [LinearSortOrder α]

theorem SortOrder.le_refl (x : α) : SortOrder.le x x = true := by
  simpa using LinearSortOrder.total x x

/-- Values in ascending order have the ranks of their positions. -/
theorem ranked_of_ascending (ascending : values.Pairwise fun x y => SortOrder.le x y = true)
    {i : Nat} (at_ : values[i]? = some value) : Ranked values (i + 1) value := by
  obtain ⟨h, rfl⟩ := List.getElem?_eq_some_iff.mp at_
  have split : values = values.take i ++ values[i] :: values.drop (i + 1) := by
    rw [← List.drop_eq_getElem_cons h, List.take_append_drop]
  have length : (values.take i).length = i := List.length_take_of_le h.le
  generalize values[i] = value at *
  generalize values.take i = before at *
  generalize values.drop (i + 1) = after at *
  subst split
  obtain ⟨-, fromHere, across⟩ := List.pairwise_append.mp ascending
  refine ⟨List.mem_append_right _ List.mem_cons_self, ?_, ?_⟩
  · have later : ∀ x ∈ value :: after, SortOrder.le value x = true := by
      intro x hx
      rcases List.mem_cons.mp hx with rfl | hx
      · exact SortOrder.le_refl x
      · exact (List.pairwise_cons.mp fromHere).1 x hx
    have none_ : (value :: after).countP (fun x => !SortOrder.le value x) = 0 :=
      List.countP_eq_zero.mpr fun x hx => by simp [later x hx]
    rw [List.countP_append, none_, Nat.add_zero, Nat.lt_succ_iff, ← length]
    exact List.countP_le_length
  · have all : before.countP (fun x => SortOrder.le x value) = before.length :=
      List.countP_eq_length.mpr fun x hx => across x hx value List.mem_cons_self
    rw [List.countP_append, List.countP_cons, all, length, if_pos (SortOrder.le_refl value)]
    omega

/-- The first and the last of ordered values enclose them all. -/
theorem between_ends {ordered : List α} {low high : α}
    (ascending : ordered.Pairwise fun x y => SortOrder.le x y = true)
    (first : ordered.head? = some low) (last : ordered.getLast? = some high) :
    ∀ x ∈ ordered, SortOrder.le low x = true ∧ SortOrder.le x high = true := by
  intro x hx
  constructor
  · obtain ⟨rest, rfl⟩ := List.head?_eq_some_iff.mp first
    rcases List.mem_cons.mp hx with rfl | hx
    · exact SortOrder.le_refl x
    · exact (List.pairwise_cons.mp ascending).1 x hx
  · obtain ⟨rest, rfl⟩ := List.getLast?_eq_some_iff.mp last
    rcases List.mem_append.mp hx with hx | hx
    · exact (List.pairwise_append.mp ascending).2.2 x hx high List.mem_cons_self
    · rw [List.mem_singleton.mp hx]
      exact SortOrder.le_refl high

end Ranks

/-! ### What the statistics are -/

/-- The last value that was recorded is the first of a bucket. -/
theorem Bucket.values_foldl_record (b : Bucket) (values : List Float) :
    (values.foldl record b).values = values.reverse ++ b.values := by
  induction values generalizing b with
  | nil => rfl
  | cons x r ih =>
      rw [List.foldl_cons, ih, List.reverse_cons, List.append_assoc]
      rfl

namespace Summary

variable {α : Type} [SortOrder α] [Arithmetic α] {s : Summary α} {values : List α}

/-- What the statistics of values are, whatever the order in which the values came. -/
structure Describes (s : Summary α) (values : List α) : Prop where
  count : s.count = values.length
  min_mem : s.min ∈ values
  max_mem : s.max ∈ values
  between : ∀ x ∈ values, SortOrder.le s.min x = true ∧ SortOrder.le x s.max = true
  median_odd : values.length % 2 = 1 → s.median ∈ values ∧
    (values.length + 1) / 2 ≤ values.countP (fun x => SortOrder.le x s.median) ∧
    (values.length + 1) / 2 ≤ values.countP (fun x => SortOrder.le s.median x)
  median_even : values.length % 2 = 0 → ∃ a b, Ranked values (values.length / 2) a ∧
    Ranked values (values.length / 2 + 1) b ∧ s.median = Arithmetic.share (Arithmetic.add a b) 2
  total : ∃ ordered : List α, ordered.Perm values ∧
    ordered.Pairwise (fun x y => SortOrder.le x y = true) ∧
    s.total = ordered.foldl Arithmetic.add Arithmetic.emptySum
  mean : s.mean = Arithmetic.share s.total values.length

theorem Describes.of_perm {xs ys : List α} (h : s.Describes xs) (perm : xs.Perm ys) :
    s.Describes ys where
  count := h.count.trans perm.length_eq
  min_mem := perm.mem_iff.mp h.min_mem
  max_mem := perm.mem_iff.mp h.max_mem
  between x hx := h.between x (perm.mem_iff.mpr hx)
  median_odd odd := by
    rw [← perm.length_eq, ← perm.countP_eq, ← perm.countP_eq]
    obtain ⟨mem, counts⟩ := h.median_odd (perm.length_eq ▸ odd)
    exact ⟨perm.mem_iff.mp mem, counts⟩
  median_even even := by
    rw [← perm.length_eq]
    obtain ⟨a, b, ha, hb, median⟩ := h.median_even (perm.length_eq ▸ even)
    exact ⟨a, b, ha.of_perm perm, hb.of_perm perm, median⟩
  total := by
    obtain ⟨ordered, same, ascending, total⟩ := h.total
    exact ⟨ordered, same.trans perm, ascending, total⟩
  mean := perm.length_eq ▸ h.mean

/-- Each statistic is taken from the ordered values. -/
theorem parts_of_ofValues? (h : ofValues? values = some s) :
    s.count = (Statistics.sorted values).length ∧
    Statistics.mean? (Statistics.sorted values) = some s.mean ∧
    Statistics.min? (Statistics.sorted values) = some s.min ∧
    Statistics.max? (Statistics.sorted values) = some s.max ∧
    Statistics.median? (Statistics.sorted values) = some s.median ∧
    Statistics.total? (Statistics.sorted values) = some s.total := by
  simp only [ofValues?, Option.bind_eq_bind, Option.bind_eq_some_iff] at h
  obtain ⟨mean, hmean, min, hmin, max, hmax, median, hmedian, total, htotal, made⟩ := h
  cases made
  exact ⟨rfl, hmean, hmin, hmax, hmedian, htotal⟩

variable [LinearSortOrder α]

/-- What the statistics of values are. -/
theorem describes_of_ofValues? (h : ofValues? values = some s) : s.Describes values := by
  have perm := Statistics.sorted_perm values
  have ascending := Statistics.sorted_ascending values
  obtain ⟨count, mean, min, max, median, total⟩ := parts_of_ofValues? h
  refine Describes.of_perm ?_ perm
  generalize Statistics.sorted values = ordered at *
  rw [Statistics.total?, Option.ite_none_left_eq_some, Option.some.injEq] at total
  obtain ⟨ne, total⟩ := total
  exact {
    count := count
    min_mem := List.mem_of_mem_head? min
    max_mem := List.mem_of_getLast? max
    between := between_ends ascending min max
    median_odd := fun odd => by
      rw [Statistics.median?, if_pos odd] at median
      have ranked := ranked_of_ascending ascending median
      have notAbove := ranked.notAbove
      have notBelow := ranked.notBelow
      exact ⟨ranked.mem, by omega, by omega⟩
    median_even := fun even => by
      rw [Statistics.median?, if_neg (by omega), if_neg ne] at median
      simp only [Option.bind_eq_bind, Option.bind_eq_some_iff] at median
      obtain ⟨low, hlow, high, hhigh, made⟩ := median
      have pos : 0 < ordered.length := List.length_pos_iff.mpr (by simpa using ne)
      have ranked := ranked_of_ascending ascending hlow
      rw [show ordered.length / 2 - 1 + 1 = ordered.length / 2 by omega] at ranked
      exact ⟨low, high, ranked, ranked_of_ascending ascending hhigh, (Option.some.inj made).symm⟩
    total := ⟨ordered, .refl _, ascending, total.symm⟩
    mean := by
      rw [Statistics.mean?, Statistics.total?, if_neg ne] at mean
      rw [← total]
      exact (Option.some.inj mean).symm }

end Summary

/-! ### Exact statistics -/

/-- Exact values are sorted by size. -/
instance : SortOrder ℚ := ⟨fun x y => decide (x ≤ y)⟩

instance : LinearSortOrder ℚ where
  total x y := by
    rw [Bool.or_eq_true]
    exact (le_total x y).imp decide_eq_true decide_eq_true
  trans x y z hxy hyz := decide_eq_true ((of_decide_eq_true hxy).trans (of_decide_eq_true hyz))
  antisymm hxy hyx := (of_decide_eq_true hxy).antisymm (of_decide_eq_true hyx)

/-- Exact sums and quotients. -/
instance : Arithmetic ℚ where
  emptySum := 0
  add x y := x + y
  share x n := x / n

namespace Summary

variable {values : List ℚ} {q : Summary ℚ}

theorem Describes.le_iff (h : q.Describes values) {x : ℚ} (hx : x ∈ values) :
    q.min ≤ x ∧ x ≤ q.max :=
  (h.between x hx).imp of_decide_eq_true of_decide_eq_true

/-- The exact total is the sum. -/
theorem Describes.total_eq_sum (h : q.Describes values) : q.total = values.sum := by
  obtain ⟨ordered, perm, -, total⟩ := h.total
  rw [total, ← perm.sum_eq, List.sum_eq_foldl]
  rfl

theorem Describes.median_between (h : q.Describes values) :
    q.min ≤ q.median ∧ q.median ≤ q.max := by
  rcases Nat.mod_two_eq_zero_or_one values.length with even | odd
  · obtain ⟨a, b, ha, hb, median⟩ := h.median_even even
    have half : q.median = (a + b) / (2 : Nat) := median
    have first := h.le_iff ha.mem
    have second := h.le_iff hb.mem
    rw [half]
    constructor <;> push_cast <;> linarith
  · exact h.le_iff (h.median_odd odd).1

theorem Describes.mean_between (h : q.Describes values) : q.min ≤ q.mean ∧ q.mean ≤ q.max := by
  have mean : q.mean = values.sum / values.length := h.total_eq_sum ▸ h.mean
  have pos : (0 : ℚ) < values.length := by
    exact_mod_cast List.length_pos_of_mem h.min_mem
  rw [mean, le_div_iff₀ pos, div_le_iff₀ pos, mul_comm, mul_comm q.max, ← nsmul_eq_mul,
    ← nsmul_eq_mul]
  exact ⟨List.card_nsmul_le_sum values q.min fun x hx => (h.le_iff hx).1,
    List.sum_le_card_nsmul values q.max fun x hx => (h.le_iff hx).2⟩

/-- Finite doubles are sorted as their exact values are. -/
theorem sorted_map_value {values : List Float} (finite : ∀ x ∈ values, x.isFinite = true) :
    Statistics.sorted (values.map Decimal.value) =
      (Statistics.sorted values).map Decimal.value := by
  have perm := Statistics.sorted_perm values
  refine Statistics.sorted_eq_of_ascending (perm.symm.map _) (List.pairwise_map.mpr ?_)
  refine (Statistics.sorted_ascending values).imp_of_mem fun hx hy le => decide_eq_true ?_
  exact Decimal.value_mono (finite _ (perm.mem_iff.mp hx)) (finite _ (perm.mem_iff.mp hy)) le

/-- What exact statistics add to what the statistics of finite doubles are. -/
structure ReadsExactly (s : Summary Float) (q : Summary ℚ) (values : List Float) : Prop where
  describes : q.Describes (values.map Decimal.value)
  min : q.min = Decimal.value s.min
  max : q.max = Decimal.value s.max
  total : q.total = (values.map Decimal.value).sum
  median_between : q.min ≤ q.median ∧ q.median ≤ q.max
  mean_between : q.min ≤ q.mean ∧ q.mean ≤ q.max

theorem readsExactly {values : List Float} {s : Summary Float} (h : ofValues? values = some s)
    (finite : ∀ x ∈ values, x.isFinite = true) :
    ∃ q, ofValues? (values.map Decimal.value) = some q ∧ s.ReadsExactly q values := by
  have ne : values.map Decimal.value ≠ [] := by
    intro empty
    rw [List.map_eq_nil_iff.mp empty, ofValues?_eq_none_iff.mpr rfl] at h
    cases h
  obtain ⟨q, exact_, -⟩ := ofValues?_of_ne_nil ne
  have describes := describes_of_ofValues? exact_
  obtain ⟨-, -, min, max, -⟩ := parts_of_ofValues? h
  obtain ⟨-, -, min', max', -⟩ := parts_of_ofValues? exact_
  rw [sorted_map_value finite] at min' max'
  rw [Statistics.min?] at min
  rw [Statistics.max?] at max
  rw [Statistics.min?, List.head?_map, min] at min'
  rw [Statistics.max?, List.getLast?_map, max] at max'
  exact ⟨q, exact_, describes, (Option.some.inj min').symm, (Option.some.inj max').symm,
    describes.total_eq_sum, describes.median_between, describes.mean_between⟩

/-- The statistics of recorded values are what they are called: of doubles, exactly of the values of
finite doubles, and of patterns of 64 bits whatever their sums are. -/
theorem statistics_of_values (values : List Float) :
    (values = [] → (values.foldl Bucket.record .empty).summary? = none) ∧
    (values ≠ [] → ∃ s, (values.foldl Bucket.record .empty).summary? = some s ∧
      s.Describes values ∧
      ((∀ x ∈ values, x.isFinite = true) →
        ∃ q, ofValues? (values.map Decimal.value) = some q ∧ s.ReadsExactly q values)) ∧
    ∀ [Arithmetic Pattern] (patterns : List Pattern), patterns ≠ [] →
      ∃ s, ofValues? patterns = some s ∧ s.Describes patterns := by
  have recorded : (values.foldl Bucket.record .empty).summary? = ofValues? values := by
    rw [Bucket.summary?, Bucket.values_foldl_record, Bucket.empty, List.append_nil]
    exact ofValues?_eq_of_perm values.reverse_perm
  rw [recorded]
  refine ⟨ofValues?_eq_none_iff.mpr, fun ne => ?_, fun patterns ne => ?_⟩
  · obtain ⟨s, some_, -⟩ := ofValues?_of_ne_nil ne
    exact ⟨s, some_, describes_of_ofValues? some_, readsExactly some_⟩
  · obtain ⟨s, some_, -⟩ := ofValues?_of_ne_nil ne
    exact ⟨s, some_, describes_of_ofValues? some_⟩

end Summary

/-- Patterns are added and shared out as the doubles that they stand for. -/
@[reducible]
def Pattern.arithmetic : Arithmetic Pattern :=
  let double (p : Pattern) : Float := .ofBits ⟨p.bits⟩
  let pattern (x : Float) : Pattern := ⟨x.toBits.toBitVec⟩
  { emptySum := pattern (-0.0)
    add := fun p q => pattern (double p + double q)
    share := fun p n => pattern (double p / Float.ofNat n) }

/-- Two equal values among four, and two different NaNs among three patterns. -/
theorem Summary.statistics_of_values_tied :
    (∃ s, ([2.5, -0.0, 2.5, 1.0].foldl Bucket.record .empty).summary? = some s ∧
      s.Describes [2.5, -0.0, 2.5, 1.0] ∧
      ∃ q, ofValues? ([2.5, -0.0, 2.5, 1.0].map Decimal.value) = some q ∧
        s.ReadsExactly q [2.5, -0.0, 2.5, 1.0]) ∧
    ∃ s, @ofValues? Pattern _ Pattern.arithmetic
        [⟨0x7FF8000000000001⟩, ⟨0⟩, ⟨0xFFF8000000000000⟩] = some s ∧
      @Describes Pattern _ Pattern.arithmetic s
        [⟨0x7FF8000000000001⟩, ⟨0⟩, ⟨0xFFF8000000000000⟩] := by
  obtain ⟨s, some_, describes, exact_⟩ :=
    (statistics_of_values [2.5, -0.0, 2.5, 1.0]).2.1 (List.cons_ne_nil _ _)
  refine ⟨⟨s, some_, describes, exact_ ?_⟩, ?_⟩
  · intro x hx
    simp only [List.mem_cons, List.not_mem_nil, or_false] at hx
    rcases hx with rfl | rfl | rfl | rfl
    · rfl
    · rfl
    · rfl
    · rfl
  · let _ := Pattern.arithmetic
    exact (statistics_of_values []).2.2 _ (List.cons_ne_nil _ _)

end SuiteMetrics
