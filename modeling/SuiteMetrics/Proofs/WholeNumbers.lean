import SuiteMetrics.Proofs.DoubleArithmetic
import SuiteMetrics.Render.Format

/-!
Whole numbers for readers.

A number is shown by way of the double nearest to it. A double whose value is a whole number is
shown as that number, held to 64 bits (`displayFloat_of_value`), and the double nearest to an
integer has such a value (`Nearest.exists_int`). So the digits of an integer are shown just if a
double has its value and 64 bits have room for it, or if it is the greatest integer of 64 bits, at
which larger doubles are held (`displayText_eq_iff`). Data formats keep the digits of every integer.
-/

namespace SuiteMetrics.Decimal

/-! ### Whole doubles -/

theorem Binary64.magnitude_eq (b : Binary64) :
    (b.significand : ℚ) * 2 ^ b.scale = b.numerator / b.denominator := by
  have numerator : b.numerator = b.significand * 2 ^ b.scale.toNat := rfl
  have denominator : b.denominator = 2 ^ (-b.scale).toNat := rfl
  have exponent : b.scale = (b.scale.toNat : Int) - (-b.scale).toNat := by omega
  have power : (2 : ℚ) ^ b.scale = 2 ^ b.scale.toNat / 2 ^ (-b.scale).toNat := by
    conv_lhs => rw [exponent]
    rw [zpow_sub₀ two_ne_zero, zpow_natCast, zpow_natCast]
  rw [numerator, denominator, power]
  push_cast
  rw [mul_div_assoc]

theorem Binary64.floor_of_magnitude {b : Binary64} {n : Nat}
    (h : (b.significand : ℚ) * 2 ^ b.scale = n) : b.isWhole = true ∧ b.floor = n := by
  have pos : 0 < b.denominator := Nat.two_pow_pos _
  rw [b.magnitude_eq, div_eq_iff (by exact_mod_cast pos.ne')] at h
  have product : b.numerator = n * b.denominator := by exact_mod_cast h
  refine ⟨decide_eq_true ?_, ?_⟩
  · rw [product, Nat.mul_mod_left]
  · rw [floor, product, Nat.mul_div_cancel _ pos]

/-- A double whose value is a whole number is shown as that number, as far as it has 64 bits. -/
theorem truncate64_of_value {b : Binary64} {v : Int} (h : b.value = v) :
    b.isWhole = true ∧ truncate64 b = max int64Min (min int64Max v) := by
  rcases sign : b.negative with _ | _
  · rw [Binary64.value_of_positive sign] at h
    have nonneg : 0 ≤ v := by
      have : (0 : ℚ) ≤ v := h ▸ by positivity
      exact_mod_cast this
    obtain ⟨n, rfl⟩ := Int.eq_ofNat_of_zero_le nonneg
    obtain ⟨whole, floor⟩ := Binary64.floor_of_magnitude (n := n) (by exact_mod_cast h)
    rw [truncate64, sign, floor]
    exact ⟨whole, rfl⟩
  · rw [Binary64.value_of_negative sign] at h
    have nonneg : 0 ≤ -v := by
      have : (0 : ℚ) ≤ -v := by
        rw [← h, neg_neg]
        positivity
      exact_mod_cast this
    obtain ⟨n, hn⟩ := Int.eq_ofNat_of_zero_le nonneg
    obtain rfl : v = -n := by omega
    obtain ⟨whole, floor⟩ := Binary64.floor_of_magnitude (b := b) (n := n) (by
      push_cast at h
      linarith)
    rw [truncate64, sign, floor]
    exact ⟨whole, rfl⟩

/-! ### Integers as doubles -/

theorem representable_natCast_two_pow {k : Nat} : Representable (2 ^ k) :=
  ⟨1, k, by decide, by omega, by simp⟩

theorem abs_mul_zpow_le (m : ℤ) {e : ℤ} (h : e ≤ 0) : |(m : ℚ) * 2 ^ e| ≤ |(m : ℚ)| := by
  rw [abs_mul, abs_of_pos (by positivity : (0 : ℚ) < 2 ^ e)]
  exact mul_le_of_le_one_right (abs_nonneg _) (zpow_le_one_of_nonpos₀ one_le_two h)

/-- The integers that doubles have are those of 53 bits, with zeros after them. -/
theorem representable_intCast_iff {n : Int} :
    Representable n ↔ ∃ (m : Int) (k : Nat), m.natAbs < 2 ^ 53 ∧ n = m * 2 ^ k := by
  constructor
  · rintro ⟨m, e, short, -, same⟩
    rcases le_or_gt 0 e with whole | fraction
    · refine ⟨m, e.toNat, short, ?_⟩
      rw [← Int.toNat_of_nonneg whole, zpow_natCast] at same
      exact_mod_cast same
    · refine ⟨n, 0, ?_, by rw [pow_zero, mul_one]⟩
      have smaller : |(n : ℚ)| ≤ |(m : ℚ)| := same ▸ abs_mul_zpow_le m fraction.le
      have natAbs : n.natAbs ≤ m.natAbs := by
        rw [← Int.cast_abs, ← Int.cast_abs, Int.cast_le, Int.abs_eq_natAbs,
          Int.abs_eq_natAbs] at smaller
        exact_mod_cast smaller
      omega
  · rintro ⟨m, k, short, rfl⟩
    exact ⟨m, k, short, by omega, by push_cast; rw [zpow_natCast]⟩

/-- What is nearest to an integer is an integer. -/
theorem Nearest.exists_int {n : Int} {r : ℚ} (h : Nearest n r) : ∃ v : Int, r = v := by
  by_cases short : n.natAbs < 2 ^ 53
  · exact ⟨n, h.eq_of_representable (representable_intCast_iff.mpr ⟨n, 0, short, by simp⟩)⟩
  · have large : 2 ^ 53 ≤ |r| := by
      rcases le_total 0 n with nonneg | nonpos
      · have bound : (2 : ℚ) ^ 53 ≤ n := by exact_mod_cast (by omega : 2 ^ 53 ≤ n)
        exact (h.le_of_le representable_natCast_two_pow bound).trans (le_abs_self r)
      · have bound : (n : ℚ) ≤ -2 ^ 53 := by exact_mod_cast (by omega : n ≤ -2 ^ 53)
        have below := h.ge_of_ge representable_natCast_two_pow.neg bound
        exact (le_neg.mpr below).trans (neg_le_abs r)
    obtain ⟨m, e, short', -, rfl⟩ := h.representable
    have exponent : 0 ≤ e := by
      by_contra negative
      have smaller := abs_mul_zpow_le m (not_le.mp negative).le
      have bound : |(m : ℚ)| < 2 ^ 53 := by
        rw [← Int.cast_abs, Int.abs_eq_natAbs]
        exact_mod_cast short'
      exact absurd (large.trans smaller) bound.not_ge
    refine ⟨m * 2 ^ e.toNat, ?_⟩
    rw [← Int.toNat_of_nonneg exponent, zpow_natCast]
    push_cast
    rfl

/-- An integer of 64 bits is rounded to the nearest double. -/
theorem nearest_floatOfInt {n : Int} (h : n.natAbs ≤ 2 ^ 64) :
    (Json.floatOfInt n).isFinite = true ∧ Nearest n (value (Json.floatOfInt n)) := by
  have magnitude : (Float.ofNat n.natAbs).isFinite = true ∧
      Nearest n.natAbs (value (Float.ofNat n.natAbs)) := by
    have rounds := rounds_ofNat n.natAbs
    have zero : Representable 0 := ⟨0, 0, by decide, by decide, by simp⟩
    have bound : |(2 ^ 64 : ℚ)| < 2 ^ 1024 := by
      rw [abs_of_nonneg (by positivity)]
      exact pow_lt_pow_right₀ one_lt_two (by decide)
    have finite := rounds.isFinite_of_between zero (representable_natCast_two_pow (k := 64))
      (by rw [abs_zero]; positivity) bound (Nat.cast_nonneg _) (by exact_mod_cast h)
    exact ⟨finite, rounds.nearest finite⟩
  rw [Json.floatOfInt]
  split
  case isTrue negative =>
      obtain ⟨finite, same⟩ := value_neg magnitude.1
      have opposite : (n : ℚ) = -(n.natAbs : ℚ) := by
        rw [Nat.cast_natAbs, abs_of_neg negative, Int.cast_neg, neg_neg]
      refine ⟨finite, ?_⟩
      rw [same, opposite]
      exact magnitude.2.neg
  case isFalse nonneg =>
      have same : n.toNat = n.natAbs := by omega
      have itself : (n : ℚ) = n.natAbs := by
        rw [Nat.cast_natAbs, abs_of_nonneg (not_lt.mp nonneg)]
      rw [same, itself]
      exact magnitude

/-- Before they reach 2 ^ 63, doubles leave out more than a thousand integers. -/
theorem representable_near_limit {v : Int} (h : Representable v) (low : 2 ^ 63 - 2 ≤ v) :
    2 ^ 63 ≤ v := by
  rcases representable_cases h 10 with ⟨k, same⟩ | ⟨-, below⟩
  · have multiple : v = k * 1024 := by
      have power : (2 : ℚ) ^ (10 : Int) = 1024 := by norm_num
      rw [power] at same
      exact_mod_cast same
    omega
  · have small : v < 2 ^ 62 := by
      have power : (2 : ℚ) ^ 52 * 2 ^ (10 : Int) = 2 ^ 62 := by norm_num
      rw [power] at below
      exact_mod_cast below
    omega

end SuiteMetrics.Decimal

/-- The exact value of a number is an integer. Integers of JSON have 64 bits, with a sign or
without. -/
inductive SuiteMetrics.Json.Number.Denotes : Json.Number → Int → Prop where
  | integer {n : Int} (low : -2 ^ 63 ≤ n) (high : n < 2 ^ 64) : Denotes (.integer n) n
  | real {x : Float} {n : Int} (finite : x.isFinite = true) (value : Decimal.value x = n) :
    Denotes (.real x) n

namespace SuiteMetrics.Render

open Decimal (value Representable Nearest int64Min int64Max)

theorem displayFloat_of_value {x : Float} {v : Int} (finite : x.isFinite = true) (h : value x = v) :
    displayFloat x = toString (max int64Min (min int64Max v)) := by
  rcases Decimal.ofFloat?_reads x with ⟨infinite, -⟩ | ⟨b, some_, -⟩
  · rw [finite] at infinite
    cases infinite
  · rw [value, some_] at h
    obtain ⟨whole, truncated⟩ := Decimal.truncate64_of_value (b := b) h
    rw [displayFloat, some_]
    dsimp only
    rw [if_pos whole, truncated]

/-- The integer has 53 bits, with zeros after them, and 64 bits with its sign, or it is the greatest
of these. -/
def ShownExactly (n : Int) : Prop :=
  ((∃ (m : Int) (k : Nat), m.natAbs < 2 ^ 53 ∧ n = m * 2 ^ k) ∧ -2 ^ 63 ≤ n ∧ n < 2 ^ 63) ∨
    n = 2 ^ 63 - 1

theorem clamped_eq_iff {n v : Int} (h : Nearest n v) :
    max int64Min (min int64Max v) = n ↔ ShownExactly n := by
  have greatest : int64Max = 2 ^ 63 - 1 := rfl
  have least : int64Min = -2 ^ 63 := rfl
  rw [ShownExactly, ← Decimal.representable_intCast_iff, greatest, least]
  constructor
  · intro same
    by_cases inside : -2 ^ 63 ≤ v ∧ v < 2 ^ 63
    · obtain rfl : v = n := by omega
      exact .inl ⟨h.representable, inside⟩
    · by_cases top : n = 2 ^ 63 - 1
      · exact .inr top
      · obtain rfl : n = -2 ^ 63 := by omega
        refine .inl ⟨?_, by decide⟩
        have power := (Decimal.representable_natCast_two_pow (k := 63)).neg
        exact_mod_cast power
  · rintro (⟨representable, low, high⟩ | rfl)
    · have same : v = n := by exact_mod_cast h.eq_of_representable representable
      omega
    · have near := h.least (2 ^ 63) Decimal.representable_natCast_two_pow
      have gap : |((2 ^ 63 - 1 : Int) : ℚ) - 2 ^ 63| = 1 := by norm_num
      rw [gap] at near
      have close : |(2 ^ 63 - 1 : Int) - v| ≤ 1 := by exact_mod_cast near
      have above := (abs_le.mp close).2
      have reached := Decimal.representable_near_limit h.representable (by omega)
      omega

theorem displayText_eq_iff {number : Json.Number} {n : Int} (h : number.Denotes n) :
    displayText (.number number) = toString n ↔ ShownExactly n := by
  have shown : ∃ v : Int, displayText (.number number) = toString (max int64Min (min int64Max v)) ∧
      Nearest n v := by
    cases h with
    | integer low high =>
        obtain ⟨finite, nearest⟩ := Decimal.nearest_floatOfInt (n := n) (by omega)
        obtain ⟨v, same⟩ := nearest.exists_int
        exact ⟨v, displayFloat_of_value finite same, same ▸ nearest⟩
    | real finite same =>
        refine ⟨n, displayFloat_of_value finite same, ?_⟩
        have representable := Decimal.representable_value finite
        exact (same ▸ representable).nearest
  obtain ⟨v, text, nearest⟩ := shown
  rw [text, ← clamped_eq_iff nearest]
  exact ⟨fun same => Int.repr_injective same, congrArg toString⟩

/-- The formats for readers show a whole number as it is just if its digits can be shown exactly, and
the formats for data write every integer as it is. -/
theorem whole_number_shown_iff {number : Json.Number} {n : Int} (h : number.Denotes n) :
    (Format.text.render (.number number) = toString n ++ "\n" ↔ ShownExactly n) ∧
      (Format.markdown.render (.number number) = toString n ++ "\n\n" ↔ ShownExactly n) ∧
      (∀ row column, cell row column = .number number →
        (displayText (cell row column) = toString n ↔ ShownExactly n)) ∧
      ∀ m, number = .integer m → plainText (.number number) = toString n ∧
        Format.json.render (.number number) = toString n ++ "\n" := by
  have shown := displayText_eq_iff h
  have text : Format.text.render (.number number) = displayText (.number number) ++ "\n" := rfl
  have markdown : Format.markdown.render (.number number) =
      displayText (.number number) ++ "\n\n" := rfl
  refine ⟨?_, ?_, fun row column same => ?_, ?_⟩
  · rw [text, String.append_left_inj]
    exact shown
  · rw [markdown, String.append_left_inj]
    exact shown
  · rw [same]
    exact shown
  · rintro m rfl
    cases h with
    | integer low high => exact ⟨rfl, rfl⟩

/-- The greatest integer of 64 bits, which is rounded up and held again. -/
theorem whole_number_shown_iff_greatest :
    (Json.Number.integer (2 ^ 63 - 1)).Denotes (2 ^ 63 - 1) ∧
      (Format.text.render (.number (.integer (2 ^ 63 - 1))) =
        toString (2 ^ 63 - 1 : Int) ++ "\n" ↔ ShownExactly (2 ^ 63 - 1)) := by
  have denotes : (Json.Number.integer (2 ^ 63 - 1)).Denotes (2 ^ 63 - 1) :=
    .integer (by decide) (by decide)
  exact ⟨denotes, (whole_number_shown_iff denotes).1⟩

/-- An integer of 54 bits is shown as its neighbour, and the double 2 ^ 64 as half its value. -/
theorem whole_numbers_not_shown :
    Format.text.render (.number (.integer 9007199254740993)) = "9007199254740992\n" ∧
      Format.text.render (.number (.real 18446744073709551616.0)) = "9223372036854775807\n" := by
  decide +kernel

end SuiteMetrics.Render
