import SuiteMetrics.Proofs.ExactValue

/-!
Rounding gives the nearest double.

A significand is cut to the bits that a double has room for, and two residual bits remember how what
was cut off compares with a half of the last bit that is kept (`Stands`). What is kept is rounded by
them, so it is a nearest whole number of units in the last place (`Stands.rounded`). Doubles that
are no whole number of these units are all smaller than what was cut (`representable_cases`), so the
rounded significand is the nearest of all doubles (`roundedTo_roundWithAccuracy`), whatever the
accuracy of the significand that was given says of the quantity that is meant (`Describes`).
-/

namespace SuiteMetrics.Decimal

open Float.Model (Format UnpackedFloat totalExponent)
open Float.Model.UnpackedFloat

/-! ### Quantities that doubles have -/

/-- The quantity is an integer of at most 53 bits times a power of two that is not too small. -/
def Representable (q : ℚ) : Prop :=
  ∃ m e : ℤ, m.natAbs < 2 ^ 53 ∧ -1074 ≤ e ∧ q = m * 2 ^ e

/-- No quantity that a double has is nearer. -/
structure Nearest (q r : ℚ) : Prop where
  representable : Representable r
  least : ∀ d, Representable d → |q - r| ≤ |q - d|

theorem Representable.neg {q : ℚ} (h : Representable q) : Representable (-q) := by
  obtain ⟨m, e, short, low, rfl⟩ := h
  refine ⟨-m, e, by rwa [Int.natAbs_neg], low, ?_⟩
  push_cast
  ring

theorem Representable.nearest {q : ℚ} (h : Representable q) : Nearest q q where
  representable := h
  least d _ := by
    rw [sub_self, abs_zero]
    exact abs_nonneg _

namespace Nearest

variable {q r d : ℚ}

theorem eq_of_representable (h : Nearest q r) (hq : Representable q) : r = q := by
  have least := h.least q hq
  rw [sub_self, abs_zero] at least
  exact (sub_eq_zero.mp (abs_nonpos_iff.mp least)).symm

/-- Rounding does not pass by a quantity that a double has. -/
theorem le_of_le (h : Nearest q r) (hd : Representable d) (le : d ≤ q) : d ≤ r := by
  have least := h.least d hd
  rw [abs_of_nonneg (sub_nonneg.mpr le)] at least
  have near := le_of_abs_le least
  linarith

theorem neg (h : Nearest q r) : Nearest (-q) (-r) where
  representable := h.representable.neg
  least d hd := by
    have left : -q - -r = -(q - r) := by ring
    have right : -q - d = -(q - -d) := by ring
    rw [left, right, abs_neg, abs_neg]
    exact h.least (-d) hd.neg

theorem ge_of_ge (h : Nearest q r) (hd : Representable d) (le : q ≤ d) : r ≤ d :=
  neg_le_neg_iff.mp (h.neg.le_of_le hd.neg (neg_le_neg le))

/-- Rounding keeps the order. At the middle of two doubles either is nearest, so the quantities have
to be different. -/
theorem le_of_lt {q' r' : ℚ} (h : Nearest q r) (h' : Nearest q' r') (lt : q < q') : r ≤ r' := by
  by_contra above
  have low := h.least r' h'.representable
  have high := h'.least r h.representable
  rw [← sq_le_sq] at low high
  nlinarith

end Nearest

/-! ### Significands with their residual bits -/

/-- An extended significand stands for a quantity: it is the quantity without its fraction, and its
bits say how the fraction compares with a half. -/
structure Stands (em : ExtendedMantissa) (t : ℚ) : Prop where
  le : em.mantissa ≤ t
  lt : t < em.mantissa + 1
  round : em.roundBit = true ↔ em.mantissa + 1 / 2 ≤ t
  sticky : em.stickyBit = true ↔ t ≠ em.mantissa ∧ t ≠ em.mantissa + 1 / 2

/-- The residual bits are clear just when nothing is left of the quantity. -/
theorem Stands.residue_iff {em : ExtendedMantissa} {t : ℚ} (h : Stands em t) :
    (em.roundBit || em.stickyBit) = true ↔ t ≠ em.mantissa := by
  rw [Bool.or_eq_true, h.round, h.sticky]
  constructor
  · rintro (half | ⟨ne, -⟩)
    · exact fun same => by linarith
    · exact ne
  · intro ne
    by_cases half : t = em.mantissa + 1 / 2
    · exact .inl half.ge
    · exact .inr ⟨ne, half⟩

theorem Stands.shiftRightOne {em : ExtendedMantissa} {t : ℚ} (h : Stands em t) :
    Stands em.shiftRightOne (t / 2) := by
  have le := h.le
  have lt := h.lt
  have residue := h.residue_iff
  have mantissa : em.shiftRightOne.mantissa = em.mantissa / 2 := rfl
  have bit : em.shiftRightOne.roundBit = true ↔ em.mantissa % 2 ≠ 0 := bne_iff_ne
  have rest : em.shiftRightOne.stickyBit = (em.roundBit || em.stickyBit) := rfl
  have halves : (em.mantissa : ℚ) = 2 * (em.mantissa / 2 : Nat) + (em.mantissa % 2 : Nat) := by
    exact_mod_cast (Nat.div_add_mod em.mantissa 2).symm
  rcases Nat.mod_two_eq_zero_or_one em.mantissa with even | odd
  · rw [even, Nat.cast_zero, add_zero] at halves
    refine ⟨by rw [mantissa]; linarith, by rw [mantissa]; linarith, ?_, ?_⟩
    · rw [bit, mantissa]
      exact ⟨fun ne => absurd even ne, fun half => by linarith⟩
    · rw [rest, residue, mantissa]
      refine ⟨fun ne => ⟨fun same => ne (by linarith), fun same => by linarith⟩, ?_⟩
      exact fun ne same => ne.1 (by linarith)
  · rw [odd, Nat.cast_one] at halves
    refine ⟨by rw [mantissa]; linarith, by rw [mantissa]; linarith, ?_, ?_⟩
    · rw [bit, mantissa]
      exact ⟨fun _ => by linarith, fun _ => by omega⟩
    · rw [rest, residue, mantissa]
      refine ⟨fun ne => ⟨fun same => by linarith, fun same => ne (by linarith)⟩, ?_⟩
      exact fun ne same => ne.2 (by linarith)

theorem Stands.shiftRight {em : ExtendedMantissa} {t : ℚ} (h : Stands em t) (k : Nat) :
    Stands (em >>> k) (t / 2 ^ k) := by
  induction k with
  | zero =>
      rw [pow_zero, div_one]
      exact h
  | succ k ih =>
      rw [pow_succ, ← div_div]
      exact ih.shiftRightOne

/-- What an accuracy says of the fraction of a quantity. -/
def Describes : Accuracy → ℚ → Prop
  | .exact, fraction => fraction = 0
  | .inexact order, fraction => 0 < fraction ∧ fraction < 1 ∧ compare fraction (1 / 2) = order

theorem stands_of_fraction {fraction : ℚ} {round sticky : Bool} (nonneg : 0 ≤ fraction)
    (lt : fraction < 1) (hr : round = true ↔ 1 / 2 ≤ fraction)
    (hs : sticky = true ↔ fraction ≠ 0 ∧ fraction ≠ 1 / 2) (m : Nat) :
    Stands ⟨m, round, sticky⟩ (m + fraction) where
  le := le_add_of_nonneg_right nonneg
  lt := (add_lt_add_iff_left _).mpr lt
  round := hr.trans (add_le_add_iff_left _).symm
  sticky := hs.trans (and_congr (not_congr add_eq_left.symm) (not_congr (add_right_inj _).symm))

theorem stands_ofMantissaAndAccuracy {accuracy : Accuracy} {fraction : ℚ}
    (h : Describes accuracy fraction) (m : Nat) :
    Stands (.ofMantissaAndAccuracy m accuracy) (m + fraction) := by
  rcases accuracy with _ | _ | _ | _
  case exact =>
      cases h
      have half : ¬ (1 / 2 : ℚ) ≤ 0 := by norm_num
      exact stands_of_fraction (le_refl 0) one_pos (iff_of_false Bool.false_ne_true half)
        (iff_of_false Bool.false_ne_true fun ne => ne.1 rfl) m
  case inexact.lt =>
      obtain ⟨pos, lt, order⟩ := h
      have half := compare_lt_iff_lt.mp order
      exact stands_of_fraction pos.le lt (iff_of_false Bool.false_ne_true half.not_ge)
        (iff_of_true rfl ⟨pos.ne', half.ne⟩) m
  case inexact.eq =>
      obtain ⟨pos, lt, order⟩ := h
      have half := compare_eq_iff_eq.mp order
      exact stands_of_fraction pos.le lt (iff_of_true rfl half.ge)
        (iff_of_false Bool.false_ne_true fun ne => ne.2 half) m
  case inexact.gt =>
      obtain ⟨pos, lt, order⟩ := h
      have half := compare_gt_iff_gt.mp order
      exact stands_of_fraction pos.le lt (iff_of_true rfl half.le)
        (iff_of_true rfl ⟨pos.ne', half.ne'⟩) m

/-- Rounding moves a quantity by a half at most. -/
theorem Stands.rounded {em : ExtendedMantissa} {t : ℚ} (h : Stands em t) :
    |t - em.roundedMantissa| ≤ 1 / 2 := by
  obtain ⟨m, round, sticky⟩ := em
  obtain ⟨le, lt, hr, hs⟩ := h
  dsimp only at le lt hr hs
  cases round with
  | false =>
      have rounded : ExtendedMantissa.roundedMantissa ⟨m, false, sticky⟩ = m := by
        cases sticky <;> rfl
      have half : t < m + 1 / 2 := not_le.mp fun half => Bool.false_ne_true (hr.mpr half)
      rw [rounded, abs_of_nonneg (sub_nonneg.mpr le)]
      linarith
  | true =>
      have half : m + 1 / 2 ≤ t := hr.mp rfl
      cases sticky with
      | false =>
          have tie : t = m + 1 / 2 := by
            by_contra ne
            exact Bool.false_ne_true (hs.mpr ⟨fun same => by linarith, ne⟩)
          have rounded : ExtendedMantissa.roundedMantissa ⟨m, true, false⟩ = m + m % 2 := rfl
          rw [rounded, tie]
          rcases Nat.mod_two_eq_zero_or_one m with even | odd
          · rw [even]
            norm_num
          · rw [odd]
            norm_num
      | true =>
          have rounded : ExtendedMantissa.roundedMantissa ⟨m, true, true⟩ = m + 1 := rfl
          rw [rounded, Nat.cast_succ, abs_of_nonpos (by linarith)]
          linarith

/-! ### Rounding -/

/-- A finite double in the form in which doubles are stored, where only its exponent may be too
large. -/
inductive Canonical : UnpackedFloat → Prop where
  | zero (s : Sign) : Canonical (.zero s)
  | finite {s : Sign} {m : Nat} {e : Int} {pos : 0 < m} (short : m < 2 ^ 53) (low : -1074 ≤ e)
    (full : m.log2 = 52 ∨ e = -1074) : Canonical (.finite s m e pos)

/-- The exponent of the last bit that is kept of a significand. -/
def lastExponent (m : Nat) (e : Int) : Int := max (m.log2 + e - 52) (-1074)

theorem shiftToTargetExponent_eq (m : Nat) (e : Int) (accuracy : Accuracy) :
    shiftToTargetExponent .binary64 m e accuracy =
      (ExtendedMantissa.ofMantissaAndAccuracy m accuracy >>> (lastExponent m e - e).toNat,
        e + (lastExponent m e - e).toNat) := by
  rw [shiftToTargetExponent, shiftToExponent, targetExponent_eq]
  rfl

/-- A rounded significand that has grown to 54 bits is shortened once more. -/
theorem shift_rounded {n : Nat} (le : n ≤ 2 ^ 53) {e : Int} (low : -1074 ≤ e) :
    (shiftToTargetExponent .binary64 n e .exact).1.mantissa = (if n < 2 ^ 53 then n else 2 ^ 52) ∧
      (shiftToTargetExponent .binary64 n e .exact).2 = if n < 2 ^ 53 then e else e + 1 := by
  rw [mantissa_shiftToTargetExponent, exponent_shiftToTargetExponent]
  by_cases short : n < 2 ^ 53
  · have length : n.log2 < 53 := log2_lt_of_lt short (by decide)
    have none_ : (max ((n.log2 : Int) + e - 52) (-1074) - e).toNat = 0 := by omega
    rw [if_pos short, if_pos short, none_, pow_zero, Nat.div_one]
    exact ⟨rfl, by omega⟩
  · obtain rfl : n = 2 ^ 53 := by omega
    have one : (max (((2 ^ 53).log2 : Nat) + e - 52 : Int) (-1074) - e).toNat = 1 := by
      rw [Nat.log2_two_pow]
      omega
    rw [if_neg short, if_neg short, one, Nat.log2_two_pow]
    exact ⟨rfl, by omega⟩

/-- A finite double is what a quantity is rounded to. -/
structure RoundedTo (q : ℚ) (f : UnpackedFloat) : Prop where
  canonical : Canonical f
  nearest : Nearest q (unpackedValue f)

/-- Off the grid of a quantity's last bit, doubles are less than the least significand that fills 53
bits. -/
theorem representable_cases {d : ℚ} (h : Representable d) (e : Int) :
    (∃ k : ℤ, d = k * 2 ^ e) ∨ (-1074 < e ∧ d < 2 ^ 52 * 2 ^ e) := by
  obtain ⟨m, e', short, low, rfl⟩ := h
  rcases le_or_gt e e' with coarse | fine
  · left
    refine ⟨m * 2 ^ (e' - e).toNat, ?_⟩
    have power : (2 : ℚ) ^ e' = 2 ^ (e' - e).toNat * 2 ^ e := by
      rw [← zpow_natCast, ← zpow_add₀ two_ne_zero]
      congr 1
      omega
    rw [power]
    push_cast
    ring
  · right
    refine ⟨by omega, ?_⟩
    have bound : (m : ℚ) < 2 ^ 53 := by
      have : m < 2 ^ 53 := by omega
      exact_mod_cast this
    calc (m : ℚ) * 2 ^ e' < 2 ^ 53 * 2 ^ e' := by
          exact mul_lt_mul_of_pos_right bound (by positivity)
      _ = 2 ^ 52 * 2 ^ (e' + 1) := by
          rw [zpow_add_one₀ two_ne_zero]
          ring
      _ ≤ 2 ^ 52 * 2 ^ e := by
          refine mul_le_mul_of_nonneg_left ?_ (by positivity)
          exact zpow_le_zpow_right₀ one_le_two (by omega)

/-- A quantity in units of the last bit that is kept of it, rounded to a whole number of them. -/
structure Kept (q : ℚ) (n : Nat) (e : Int) : Prop where
  near : |q / 2 ^ e - n| ≤ 1 / 2
  le : n ≤ 2 ^ 53
  low : -1074 ≤ e
  full : 2 ^ 52 ≤ n ∧ 2 ^ 52 ≤ q / 2 ^ e ∨ e = -1074

/-- A significand, which may be zero, and an exponent as a double. -/
def ofParts (s : Sign) (m : Nat) (e : Int) : UnpackedFloat :=
  if zero : m = 0 then .zero s else .finite s m e (Nat.pos_of_ne_zero zero)

/-- A number of units as a double. A number that has grown to 54 bits is shortened. -/
def carried (s : Sign) (n : Nat) (e : Int) : UnpackedFloat :=
  ofParts s (if n < 2 ^ 53 then n else 2 ^ 52) (if n < 2 ^ 53 then e else e + 1)

theorem roundWithAccuracy_eq_ofParts (s : Sign) (m : Nat) (e : Int) (accuracy : Accuracy) :
    roundWithAccuracy .binary64 s m e accuracy =
      let first := shiftToTargetExponent .binary64 m e accuracy
      let last := shiftToTargetExponent .binary64 first.1.roundedMantissa first.2 .exact
      ofParts s last.1.mantissa last.2 := rfl

/-- A long significand fills 53 bits when it is cut, unless its exponent is the least. -/
theorem full_mantissa {m : Nat} {e : Int} (long : 52 ≤ m.log2 ∨ e ≤ -1074)
    (ne : lastExponent m e ≠ -1074) : 2 ^ 52 ≤ m / 2 ^ (lastExponent m e - e).toNat := by
  have shift : (lastExponent m e - e).toNat = m.log2 - 52 := by
    rw [lastExponent] at ne ⊢
    omega
  have length : 52 ≤ m.log2 := by
    rw [lastExponent] at ne
    omega
  have pos : m ≠ 0 := by
    rintro rfl
    rw [Nat.log2_zero] at length
    omega
  rw [shift, Nat.le_div_iff_mul_le (Nat.two_pow_pos _), ← Nat.pow_add, Nat.add_sub_cancel' length]
  exact Nat.log2_self_le pos

/-- Rounding keeps some units of a quantity. -/
theorem roundWithAccuracy_eq_carried {m : Nat} {e : Int} {accuracy : Accuracy} {fraction : ℚ}
    (h : Describes accuracy fraction) (long : 52 ≤ m.log2 ∨ e ≤ -1074) :
    ∃ n, Kept ((m + fraction) * 2 ^ e) n (lastExponent m e) ∧
      ∀ s, roundWithAccuracy .binary64 s m e accuracy = carried s n (lastExponent m e) := by
  have shifted := shiftToTargetExponent_eq m e accuracy
  have short := mantissa_shiftToTargetExponent_lt m e accuracy
  have whole : (shiftToTargetExponent .binary64 m e accuracy).1.mantissa =
      m / 2 ^ (lastExponent m e - e).toNat := mantissa_shiftToTargetExponent m e accuracy
  have full := full_mantissa long
  have low : -1074 ≤ lastExponent m e := le_max_right _ _
  have reached : lastExponent m e = e + (lastExponent m e - e).toNat := by
    rw [lastExponent]
    omega
  have stands := (stands_ofMantissaAndAccuracy h m).shiftRight (lastExponent m e - e).toNat
  have rounds (s : Sign) := roundWithAccuracy_eq_ofParts s m e accuracy
  simp only [shifted, ← reached] at short whole rounds
  rw [← whole] at full
  generalize (lastExponent m e - e).toNat = k at *
  have units : (m + fraction) / 2 ^ k = (m + fraction) * 2 ^ e / 2 ^ lastExponent m e := by
    rw [reached, zpow_add₀ two_ne_zero, zpow_natCast]
    field_simp
  rw [units] at stands
  generalize ExtendedMantissa.ofMantissaAndAccuracy m accuracy >>> k =
    em at short full stands rounds
  have bounds := roundedMantissa_bounds em
  refine ⟨em.roundedMantissa, ⟨stands.rounded, by omega, low, ?_⟩, ?_⟩
  · by_cases bottom : lastExponent m e = -1074
    · exact .inr bottom
    · refine .inl ⟨(full bottom).trans bounds.1, le_trans ?_ stands.le⟩
      exact_mod_cast full bottom
  · intro s
    obtain ⟨mantissa, exponent⟩ := shift_rounded (by omega : em.roundedMantissa ≤ 2 ^ 53) low
    rw [rounds, mantissa, exponent]
    rfl

/-! ### The nearest double -/

theorem unpackedValue_ofParts (s : Sign) (m : Nat) (e : Int) :
    unpackedValue (ofParts s m e) = s.apply m * 2 ^ e := by
  rw [ofParts]
  split
  case isTrue zero =>
      subst zero
      cases s with
      | negative => simp [unpackedValue, Sign.apply]
      | positive => simp [unpackedValue, Sign.apply]
  case isFalse => rfl

theorem canonical_ofParts (s : Sign) {m : Nat} {e : Int} (short : m < 2 ^ 53) (low : -1074 ≤ e)
    (full : 2 ^ 52 ≤ m ∨ e = -1074) : Canonical (ofParts s m e) := by
  rw [ofParts]
  split
  case isTrue => exact .zero s
  case isFalse ne =>
      exact .finite short low (full.imp_left fun full => (Nat.log2_eq_iff ne).mpr ⟨full, short⟩)

/-- The integer nearest to a quantity gives the nearest double, on the grid of the quantity's last
bit. -/
theorem abs_sub_le_of_grid {t : ℚ} {n : Nat} {e : Int} (near : |t - n| ≤ 1 / 2)
    (full : 2 ^ 52 ≤ t ∨ e = -1074) {d : ℚ} (hd : Representable d) :
    |t * 2 ^ e - n * 2 ^ e| ≤ |t * 2 ^ e - d| := by
  have pos : (0 : ℚ) < 2 ^ e := by positivity
  have scaled (k : ℚ) : |t * 2 ^ e - k * 2 ^ e| = |t - k| * 2 ^ e := by
    rw [← sub_mul, abs_mul, abs_of_pos pos]
  have closest (k : ℤ) : |t - n| ≤ |t - k| := by
    by_cases same : k = n
    · rw [same, Int.cast_natCast]
    · have one : (1 : ℚ) ≤ |(n : ℚ) - k| := by
        exact_mod_cast Int.one_le_abs (sub_ne_zero.mpr (Ne.symm same))
      have triangle := abs_sub_le (n : ℚ) t k
      rw [abs_sub_comm (n : ℚ) t] at triangle
      linarith
  rcases representable_cases hd e with ⟨k, rfl⟩ | ⟨fine, below⟩
  · rw [scaled, scaled]
    exact mul_le_mul_of_nonneg_right (closest k) pos.le
  · have large : 2 ^ 52 ≤ t := full.resolve_right fine.ne'
    have least := closest (2 ^ 52)
    rw [Int.cast_pow, Int.cast_ofNat, abs_of_nonneg (sub_nonneg.mpr large)] at least
    calc |t * 2 ^ e - n * 2 ^ e| ≤ (t - 2 ^ 52) * 2 ^ e := by
          rw [scaled]
          exact mul_le_mul_of_nonneg_right least pos.le
      _ ≤ t * 2 ^ e - d := by
          rw [sub_mul]
          exact sub_le_sub_left below.le _
      _ ≤ |t * 2 ^ e - d| := le_abs_self _

namespace Kept

variable {q : ℚ} {n : Nat} {e : Int}

theorem canonical_carried (h : Kept q n e) (s : Sign) : Canonical (carried s n e) := by
  have low := h.low
  rw [carried]
  split
  case isTrue short => exact canonical_ofParts s short low (h.full.imp_left And.left)
  case isFalse => exact canonical_ofParts s (by decide) (by omega) (.inl (le_refl _))

theorem value_carried (h : Kept q n e) (s : Sign) :
    unpackedValue (carried s n e) = s.apply n * 2 ^ e := by
  rw [carried, unpackedValue_ofParts]
  split
  case isTrue => rfl
  case isFalse long =>
      obtain rfl : n = 2 ^ 53 := by
        have := h.le
        omega
      rw [zpow_add_one₀ two_ne_zero]
      cases s with
      | negative =>
          simp only [Sign.apply]
          push_cast
          ring
      | positive =>
          simp only [Sign.apply]
          push_cast
          ring

theorem representable_carried (h : Kept q n e) : Representable (n * 2 ^ e) := by
  have low := h.low
  by_cases short : n < 2 ^ 53
  · exact ⟨n, e, short, low, by rw [Int.cast_natCast]⟩
  · refine ⟨2 ^ 52, e + 1, by decide, by omega, ?_⟩
    obtain rfl : n = 2 ^ 53 := by
      have := h.le
      omega
    rw [zpow_add_one₀ two_ne_zero]
    push_cast
    ring

/-- No double is nearer to the quantity than the units that are kept of it. -/
theorem least (h : Kept q n e) {d : ℚ} (hd : Representable d) : |q - n * 2 ^ e| ≤ |q - d| := by
  have units : q / 2 ^ e * 2 ^ e = q := div_mul_cancel₀ q (by positivity)
  have grid := abs_sub_le_of_grid h.near (h.full.imp_left And.right) hd
  rwa [units] at grid

/-- The units that are kept of a quantity are the double to which it is rounded. -/
theorem roundedTo (h : Kept q n e) : RoundedTo q (carried .positive n e) := by
  have value : unpackedValue (carried .positive n e) = n * 2 ^ e := h.value_carried .positive
  refine ⟨h.canonical_carried _, ?_⟩
  rw [value]
  exact ⟨h.representable_carried, fun d hd => h.least hd⟩

end Kept

/-! ### Negation -/

theorem apply_neg (s : Sign) (n : Int) : (-s).apply n = -s.apply n := by
  cases s with
  | negative => exact (neg_neg n).symm
  | positive => rfl

theorem unpackedValue_neg (f : UnpackedFloat) : unpackedValue f.neg = -unpackedValue f := by
  cases f with
  | infinity s => exact neg_zero.symm
  | notANumber => exact neg_zero.symm
  | zero s => exact neg_zero.symm
  | finite s m e pos =>
      change ((-s).apply m : ℚ) * 2 ^ e = -(s.apply m * 2 ^ e)
      rw [apply_neg, Int.cast_neg, neg_mul]

theorem Canonical.neg {f : UnpackedFloat} (h : Canonical f) : Canonical f.neg := by
  cases h with
  | zero s => exact .zero _
  | finite short low full => exact .finite short low full

/-- Rounding treats both signs alike. -/
theorem RoundedTo.neg {q : ℚ} {f : UnpackedFloat} (h : RoundedTo q f) : RoundedTo (-q) f.neg where
  canonical := h.canonical.neg
  nearest := by
    rw [unpackedValue_neg]
    exact h.nearest.neg

theorem ofParts_neg (s : Sign) (m : Nat) (e : Int) : ofParts (-s) m e = (ofParts s m e).neg := by
  rw [ofParts, ofParts]
  split
  · rfl
  · rfl

/-- A rounded significand with its residual bits is what the exact quantity is rounded to. -/
theorem roundedTo_roundWithAccuracy {m : Nat} {e : Int} {accuracy : Accuracy} {fraction : ℚ}
    (h : Describes accuracy fraction) (long : 52 ≤ m.log2 ∨ e ≤ -1074) (s : Sign) :
    RoundedTo (s.apply 1 * ((m + fraction) * 2 ^ e))
      (roundWithAccuracy .binary64 s m e accuracy) := by
  obtain ⟨n, kept, carries⟩ := roundWithAccuracy_eq_carried h long
  rw [carries]
  cases s with
  | positive =>
      have quantity (q : ℚ) : (Sign.apply .positive 1 : ℚ) * q = q := by simp [Sign.apply]
      rw [quantity]
      exact kept.roundedTo
  | negative =>
      have quantity (q : ℚ) : (Sign.apply .negative 1 : ℚ) * q = -q := by simp [Sign.apply]
      rw [quantity]
      have flipped := kept.roundedTo.neg
      rwa [carried, ← ofParts_neg] at flipped

end SuiteMetrics.Decimal
