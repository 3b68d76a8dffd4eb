import Mathlib
import SuiteMetrics.Aggregate

/-!
Statistics depend on a multiset of values only.

The total order of doubles is linear on bit patterns: a double is told by its place
(`orderKey_injective`), so `-0.0` and `0.0` are different values with different places. The same
holds of all patterns of 64 bits, among which there are many NaNs (`Pattern.place_injective`).
Sorting therefore gives one list for all orders in which values can come (`sorted_eq_of_perm`), and
whatever is computed from the sorted list is computed from the multiset. Nothing is used of the
arithmetic.
-/

namespace SuiteMetrics

/-! ### The total order of doubles -/

namespace Decimal

/-- Different doubles have different places. -/
theorem orderKey_injective {x y : Float} (h : orderKey x = orderKey y) : x = y := by
  have bound : Nat.pow 2 63 = 9223372036854775808 := rfl
  refine Float.toBits_inj.mp (UInt64.toNat_inj.mp ?_)
  simp only [orderKey, bound] at h
  split at h <;> split at h <;> omega

theorem totalLe_iff {x y : Float} : totalLe x y = true ↔ orderKey x ≤ orderKey y :=
  decide_eq_true_iff

theorem totalLe_total (x y : Float) : (totalLe x y || totalLe y x) = true := by
  rw [Bool.or_eq_true, totalLe_iff, totalLe_iff]
  exact Int.le_total _ _

theorem totalLe_trans (x y z : Float) (hxy : totalLe x y = true) (hyz : totalLe y z = true) :
    totalLe x z = true :=
  totalLe_iff.mpr (Int.le_trans (totalLe_iff.mp hxy) (totalLe_iff.mp hyz))

theorem totalLe_antisymm {x y : Float} (hxy : totalLe x y = true) (hyx : totalLe y x = true) :
    x = y :=
  orderKey_injective (Int.le_antisymm (totalLe_iff.mp hxy) (totalLe_iff.mp hyx))

end Decimal

/-- A sort order that is linear. -/
class LinearSortOrder (α : Type) [SortOrder α] : Prop where
  total (x y : α) : (SortOrder.le x y || SortOrder.le y x) = true
  trans (x y z : α) : SortOrder.le x y = true → SortOrder.le y z = true → SortOrder.le x z = true
  antisymm {x y : α} : SortOrder.le x y = true → SortOrder.le y x = true → x = y

instance : LinearSortOrder Float where
  total := Decimal.totalLe_total
  trans := Decimal.totalLe_trans
  antisymm := Decimal.totalLe_antisymm

/-! ### Patterns -/

/-- The bits of a double, by which even NaNs are told apart. -/
structure Pattern where
  bits : BitVec 64

namespace Pattern

/-- The bits that are turned over in a negative double: all below the sign bit. -/
def mask (p : Pattern) : BitVec 64 := p.bits.sshiftRight 63 >>> 1

/-- The bits as a signed number, once they are turned over in a negative double. -/
def place (p : Pattern) : Int := (p.bits ^^^ p.mask).toInt

theorem getElem_mask (p : Pattern) {i : Nat} (hi : i < 64) :
    p.mask[i] = (decide (i < 63) && p.bits.msb) := by
  rw [← BitVec.getLsbD_eq_getElem hi, mask, BitVec.getLsbD_ushiftRight, BitVec.getLsbD_sshiftRight]
  by_cases low : i < 63
  · have past : ¬ 63 + (1 + i) < 64 := by omega
    have width : ¬ 64 ≤ 1 + i := by omega
    simp [low, past, width]
  · have width : 64 ≤ 1 + i := by omega
    simp [low, width]

theorem xor_mask_of_positive {p : Pattern} (h : p.bits.msb = false) :
    p.bits ^^^ p.mask = p.bits := by
  ext i hi
  rw [BitVec.getElem_xor, getElem_mask, h, Bool.and_false, Bool.xor_false]

theorem not_xor_mask_of_negative {p : Pattern} (h : p.bits.msb = true) :
    ~~~(p.bits ^^^ p.mask) = (p.bits.setWidth 63).setWidth 64 := by
  ext i hi
  rw [BitVec.getElem_not, BitVec.getElem_xor, getElem_mask, h, Bool.and_true]
  by_cases low : i < 63
  · simp [low, BitVec.getElem_setWidth, BitVec.getLsbD_eq_getElem hi]
  · obtain rfl : i = 63 := by omega
    have last : p.bits[63] = true := by
      rwa [BitVec.msb_eq_getLsbD_last] at h
    simp [last]

/-- Patterns have the places of doubles: negative ones in descending order of their bits, then
positive ones in ascending order. -/
theorem place_eq (p : Pattern) :
    p.place =
      if p.bits.toNat < 2 ^ 63 then (p.bits.toNat : Int) else 2 ^ 63 - 1 - p.bits.toNat := by
  have sign : p.bits.msb = decide (2 ^ 63 ≤ p.bits.toNat) := BitVec.msb_eq_decide p.bits
  rw [place]
  split
  case isTrue small =>
      have positive : p.bits.msb = false := sign.trans (decide_eq_false small.not_ge)
      rw [xor_mask_of_positive positive, BitVec.toInt_eq_toNat_of_msb positive]
  case isFalse large =>
      have negative : p.bits.msb = true := sign.trans (decide_eq_true (not_lt.mp large))
      have turned := congrArg BitVec.toNat (not_xor_mask_of_negative negative)
      rw [BitVec.toNat_not, BitVec.toNat_setWidth, BitVec.toNat_setWidth] at turned
      have width := (p.bits ^^^ p.mask).isLt
      have width' := p.bits.isLt
      rw [BitVec.toInt_eq_toNat_cond]
      omega

theorem place_injective {p q : Pattern} (h : p.place = q.place) : p = q := by
  rw [place_eq, place_eq] at h
  have same : p.bits.toNat = q.bits.toNat := by
    have := p.bits.isLt
    have := q.bits.isLt
    split at h <;> split at h <;> omega
  cases p
  cases q
  exact congrArg Pattern.mk (BitVec.eq_of_toNat_eq same)

instance : SortOrder Pattern := ⟨fun p q => decide (p.place ≤ q.place)⟩

instance : LinearSortOrder Pattern where
  total p q := by
    rw [Bool.or_eq_true]
    exact (Int.le_total p.place q.place).imp decide_eq_true decide_eq_true
  trans p q r hpq hqr :=
    decide_eq_true (Int.le_trans (of_decide_eq_true hpq) (of_decide_eq_true hqr))
  antisymm hpq hqp :=
    place_injective (Int.le_antisymm (of_decide_eq_true hpq) (of_decide_eq_true hqp))

end Pattern

/-! ### Sorted values -/

namespace Statistics

section Sorted

variable {α : Type} [SortOrder α]

theorem sorted_perm (values : List α) : (sorted values).Perm values :=
  List.mergeSort_perm values _

variable [LinearSortOrder α]

theorem sorted_ascending (values : List α) :
    (sorted values).Pairwise fun x y => SortOrder.le x y = true :=
  List.pairwise_mergeSort LinearSortOrder.trans LinearSortOrder.total values

/-- Values that are in ascending order are what any of their permutations is sorted into. -/
theorem sorted_eq_of_ascending {xs ys : List α} (h : xs.Perm ys)
    (ascending : ys.Pairwise fun x y => SortOrder.le x y = true) : sorted xs = ys :=
  ((sorted_perm xs).trans h).eq_of_pairwise (fun _ _ _ _ => LinearSortOrder.antisymm)
    (sorted_ascending xs) ascending

/-- Values are sorted into one list in whatever order they come. -/
theorem sorted_eq_of_perm {xs ys : List α} (h : xs.Perm ys) : sorted xs = sorted ys :=
  sorted_eq_of_ascending (h.trans (sorted_perm ys).symm) (sorted_ascending ys)

end Sorted

/-- Values have a median if there are any. -/
theorem exists_median? {α : Type} [Arithmetic α] {values : List α} (h : values ≠ []) :
    ∃ median, median? values = some median := by
  have pos : 0 < values.length := List.length_pos_iff.mpr h
  have middle : values.length / 2 < values.length := by omega
  have before : values.length / 2 - 1 < values.length := by omega
  rw [median?, List.isEmpty_eq_false_iff.mpr h, List.getElem?_eq_getElem middle,
    List.getElem?_eq_getElem before]
  split
  · exact ⟨_, rfl⟩
  · exact ⟨_, rfl⟩

end Statistics

namespace Summary

theorem ofValues?_eq_of_perm {α : Type} [SortOrder α] [LinearSortOrder α] [Arithmetic α]
    {xs ys : List α} (h : xs.Perm ys) : ofValues? xs = ofValues? ys := by
  rw [ofValues?, ofValues?, Statistics.sorted_eq_of_perm h]

/-- The statistics of a multiset of values. -/
def ofMultiset? [Arithmetic Float] (values : Multiset Float) : Option (Summary Float) :=
  Quotient.lift ofValues? (fun _ _ h => ofValues?_eq_of_perm h) values

variable {α : Type} [SortOrder α] [Arithmetic α]

/-- Values have statistics if there are any, and the count of the statistics is their number. -/
theorem ofValues?_of_ne_nil {values : List α} (h : values ≠ []) :
    ∃ summary, ofValues? values = some summary ∧ summary.count = values.length := by
  have length : (Statistics.sorted values).length = values.length :=
    (Statistics.sorted_perm values).length_eq
  have ordered : Statistics.sorted values ≠ [] := by
    intro empty
    rw [empty, List.length_nil] at length
    exact h (List.eq_nil_of_length_eq_zero length.symm)
  obtain ⟨median, hmedian⟩ := Statistics.exists_median? ordered
  have total : Statistics.total? (Statistics.sorted values) =
      some (Statistics.sum (Statistics.sorted values)) := by
    rw [Statistics.total?, List.isEmpty_eq_false_iff.mpr ordered]
    rfl
  refine ⟨{
    count := (Statistics.sorted values).length
    mean := Arithmetic.share (Statistics.sum (Statistics.sorted values))
      (Statistics.sorted values).length
    min := (Statistics.sorted values).head ordered
    max := (Statistics.sorted values).getLast ordered
    median := median
    total := Statistics.sum (Statistics.sorted values) }, ?_, length⟩
  rw [ofValues?, Statistics.mean?, total, Statistics.min?, List.head?_eq_some_head ordered,
    Statistics.max?, List.getLast?_eq_some_getLast ordered, hmedian]
  rfl

theorem ofValues?_eq_none_iff {values : List α} : ofValues? values = none ↔ values = [] := by
  constructor
  · intro none
    by_contra h
    obtain ⟨summary, some, -⟩ := ofValues?_of_ne_nil h
    rw [none] at some
    cases some
  · rintro rfl
    rw [ofValues?, Statistics.sorted, List.mergeSort_nil]
    rfl

theorem count_of_ofValues? {values : List α} {summary : Summary α}
    (h : ofValues? values = some summary) : summary.count = values.length := by
  have ne : values ≠ [] := fun empty => by
    rw [ofValues?_eq_none_iff.mpr empty] at h
    cases h
  obtain ⟨summary', some, count⟩ := ofValues?_of_ne_nil ne
  rw [h] at some
  cases some
  exact count

end Summary

end SuiteMetrics
