import SuiteMetrics.Proofs.FiniteIndex
import SuiteMetrics.Proofs.NearestDouble

/-!
Sums, quotients and counts as doubles.

The sum of two finite doubles is the double nearest to the sum of their values (`rounds_add`), and
the same holds of quotients (`rounds_div`) and of the doubles of counts (`rounds_ofNat`). The result
is infinite only if what is rounded is too large for a double (`Rounds`), so a result that lies
between two finite doubles is finite (`Rounds.isFinite_of_between`).
-/

namespace SuiteMetrics.Decimal

open Float.Model (Format UnpackedFloat totalExponent)
open Float.Model.UnpackedFloat

/-! ### Exact results -/

theorem Canonical.representable {f : UnpackedFloat} (h : Canonical f) :
    Representable (unpackedValue f) := by
  cases h with
  | zero s => exact ⟨0, 0, by decide, by decide, by simp [unpackedValue]⟩
  | @finite s m e pos short low full =>
      exact ⟨s.apply m, e, by rwa [natAbs_apply], low, rfl⟩

/-- A double is what its own value is rounded to. -/
theorem Canonical.roundedTo {f : UnpackedFloat} (h : Canonical f) :
    RoundedTo (unpackedValue f) f :=
  ⟨h, h.representable.nearest⟩

/-! ### Rounding of integers times a power of two -/

theorem log2_shiftLeft {m : Nat} (pos : 0 < m) (k : Nat) : (m <<< k).log2 = m.log2 + k := by
  rw [Nat.shiftLeft_eq]
  refine (Nat.log2_eq_iff (Nat.mul_pos pos (Nat.two_pow_pos k)).ne').mpr ⟨?_, ?_⟩
  · rw [Nat.pow_add]
    exact Nat.mul_le_mul_right _ (Nat.log2_self_le pos.ne')
  · rw [Nat.add_right_comm, Nat.pow_add]
    exact Nat.mul_lt_mul_of_pos_right Nat.lt_log2_self (Nat.two_pow_pos k)

theorem shiftLeft_value (m k : Nat) (e : Int) :
    ((m <<< k : Nat) : ℚ) * 2 ^ (e - k) = m * 2 ^ e := by
  rw [Nat.shiftLeft_eq, zpow_sub₀ two_ne_zero, zpow_natCast]
  push_cast
  field_simp

theorem apply_eq (s : Sign) (m : Nat) : (s.apply m : ℚ) = s.apply 1 * m := by
  cases s with
  | negative => simp [Sign.apply]
  | positive => simp [Sign.apply]

/-- A significand without a remainder is what its value is rounded to. -/
theorem roundedTo_exact {m : Nat} {e : Int} (long : 52 ≤ m.log2 ∨ e ≤ -1074) (s : Sign) :
    RoundedTo (s.apply m * 2 ^ e) (roundWithAccuracy .binary64 s m e .exact) := by
  have noRest : Describes .exact 0 := rfl
  have rounded := roundedTo_roundWithAccuracy noRest long s
  rwa [add_zero, ← mul_assoc, ← apply_eq] at rounded

theorem roundedTo_round {m : Nat} (pos : 0 < m) (e : Int) (s : Sign) :
    RoundedTo (s.apply m * 2 ^ e) (round .binary64 s m e) := by
  have length := log2_shiftLeft pos (e - lastExponent m e).toNat
  have rounded := roundedTo_exact (m := m <<< (e - lastExponent m e).toNat)
    (e := e - (e - lastExponent m e).toNat) (by rw [length, lastExponent]; omega) s
  rw [apply_eq, mul_assoc, shiftLeft_value, ← mul_assoc, ← apply_eq] at rounded
  rwa [round_eq]

/-- An integer times a power of two is rounded to a double. -/
theorem roundedTo_normalize (n : Int) (e : Int) (zero : Sign) :
    RoundedTo (n * 2 ^ e) (normalize .binary64 n e zero) := by
  rw [UnpackedFloat.normalize]
  split
  case h_1 order =>
      have negative : n < 0 := Int.compare_eq_lt.mp order
      have magnitude : Sign.negative.apply ((-n).toNat : Nat) = n := by
        rw [Sign.apply]
        omega
      have rounded := roundedTo_round (m := (-n).toNat) (by omega) e .negative
      rwa [magnitude] at rounded
  case h_2 order =>
      obtain rfl : n = 0 := Int.compare_eq_eq.mp order
      rw [Int.cast_zero, zero_mul]
      exact (Canonical.zero zero).roundedTo
  case h_3 order =>
      have positive : 0 < n := Int.compare_eq_gt.mp order
      have magnitude : Sign.positive.apply (n.toNat : Nat) = n := by
        rw [Sign.apply]
        omega
      have rounded := roundedTo_round (m := n.toNat) (by omega) e .positive
      rwa [magnitude] at rounded

/-! ### Sums and quotients -/

theorem totalExponent_eq (m : Nat) (e : Int) : totalExponent m e = m.log2 + 1 + e := rfl

/-- A significand that is moved to a smaller exponent keeps its value. -/
theorem decreaseExponent_value (s : Sign) (m : Nat) {e least : Int} (le : least ≤ e) :
    (s.apply (decreaseExponent m e least).1 : ℚ) * 2 ^ least = s.apply m * 2 ^ e := by
  have exponent : least = e - (e - least).toNat := by omega
  have value := shiftLeft_value m (e - least).toNat e
  rw [← exponent] at value
  rw [apply_eq, apply_eq s m, mul_assoc, mul_assoc]
  exact congrArg _ value

/-- The sum of two doubles is what the sum of their values is rounded to. -/
theorem roundedTo_add {f g : UnpackedFloat} (hf : Canonical f) (hg : Canonical g) :
    RoundedTo (unpackedValue f + unpackedValue g) (add .binary64 f g) := by
  cases hf with
  | zero s =>
      have nothing : unpackedValue (.zero s) = 0 := rfl
      rw [nothing, zero_add]
      cases hg with
      | zero t =>
          rw [add]
          split
          · exact (Canonical.zero s).roundedTo
          · exact (Canonical.zero .positive).roundedTo
      | finite short low full => exact (Canonical.finite short low full).roundedTo
  | @finite s m e pos short low full =>
      cases hg with
      | zero t =>
          have nothing : unpackedValue (.zero t) = 0 := rfl
          rw [nothing, add_zero]
          exact (Canonical.finite short low full).roundedTo
      | @finite t n d pos' short' low' full' =>
          rw [add]
          have sum := roundedTo_normalize
            (s.apply (decreaseExponent m e (min e d)).1 +
              t.apply (decreaseExponent n d (min e d)).1)
            (min e d) .positive
          rw [Int.cast_add, add_mul, decreaseExponent_value s m (min_le_left e d),
            decreaseExponent_value t n (min_le_right e d)] at sum
          exact sum

/-- The accuracy that is told by a remainder. -/
theorem describes_accuracyOfFraction {num den : Nat} (lt : num < den) :
    Describes (accuracyOfFraction num den) (num / den) := by
  have pos : (0 : ℚ) < den := by exact_mod_cast (by omega : 0 < den)
  rw [accuracyOfFraction]
  split
  case isTrue zero =>
      rw [zero, Nat.cast_zero, zero_div]
      rfl
  case isFalse ne =>
      have numerator : (0 : ℚ) < num := by exact_mod_cast Nat.pos_of_ne_zero ne
      refine ⟨div_pos numerator pos, (div_lt_one pos).mpr (by exact_mod_cast lt), ?_⟩
      rcases lt_trichotomy (2 * num) den with less | same | more
      · rw [compare_lt_iff_lt.mpr less, compare_lt_iff_lt, div_lt_div_iff₀ pos two_pos]
        exact_mod_cast (by omega : num * 2 < 1 * den)
      · rw [compare_eq_iff_eq.mpr same, compare_eq_iff_eq, div_eq_div_iff pos.ne' two_ne_zero]
        exact_mod_cast (by omega : num * 2 = 1 * den)
      · rw [compare_gt_iff_gt.mpr more, compare_gt_iff_gt]
        refine (div_lt_div_iff₀ two_pos pos).mpr ?_
        exact_mod_cast (by omega : 1 * den < num * 2)

/-- A quotient is computed to 53 bits at least, or to the last place of all doubles. -/
theorem divCore_long {m n : Nat} (hm : 0 < m) (hn : 0 < n) (e d : Int) :
    52 ≤ (divCore .binary64 m e n d).1.log2 ∨ (divCore .binary64 m e n d).2.1 ≤ -1074 := by
  have target : Format.binary64.targetExponent (totalExponent m e - totalExponent n d) =
      max (totalExponent m e - totalExponent n d - 53) (-1074) := rfl
  rw [totalExponent_eq, totalExponent_eq] at target
  simp only [divCore, totalExponent_eq, target]
  generalize aim : max ((m.log2 : Int) + 1 + e - (n.log2 + 1 + d) - 53) (-1074) = last
  by_cases bottom : min (e - d) last ≤ -1074
  · exact .inr bottom
  · left
    generalize span : (e - d - min (e - d) last).toNat = k
    have bits : 53 + n.log2 ≤ m.log2 + k := by omega
    have large : 2 ^ (53 + n.log2) ≤ m <<< k := by
      rw [Nat.shiftLeft_eq]
      calc 2 ^ (53 + n.log2) ≤ 2 ^ (m.log2 + k) := Nat.pow_le_pow_right Nat.two_pos bits
        _ = 2 ^ m.log2 * 2 ^ k := Nat.pow_add _ _ _
        _ ≤ m * 2 ^ k := Nat.mul_le_mul_right _ (Nat.log2_self_le hm.ne')
    have quotient : 2 ^ 52 ≤ m <<< k / n := by
      rw [Nat.le_div_iff_mul_le hn]
      calc 2 ^ 52 * n ≤ 2 ^ 52 * 2 ^ (n.log2 + 1) := Nat.mul_le_mul_left _ Nat.lt_log2_self.le
        _ = 2 ^ (53 + n.log2) := by rw [← Nat.pow_add]; congr 1; omega
        _ ≤ m <<< k := large
    exact (Nat.le_log2 (by omega)).mpr quotient

/-- A quotient, its exponent and what its remainder adds make up the exact quotient. -/
theorem divCore_value {n : Nat} (hn : 0 < n) (m : Nat) (e d : Int) :
    ∃ fraction, Describes (divCore .binary64 m e n d).2.2 fraction ∧
      ((divCore .binary64 m e n d).1 + fraction) * 2 ^ (divCore .binary64 m e n d).2.1 =
        (m : ℚ) * 2 ^ e / (n * 2 ^ d) := by
  rw [divCore]
  generalize Format.binary64.targetExponent (totalExponent m e - totalExponent n d) = last
  dsimp only
  generalize least : min (e - d) last = target
  refine ⟨((m <<< (e - d - target).toNat % n : Nat) : ℚ) / n,
    describes_accuracyOfFraction (Nat.mod_lt _ hn), ?_⟩
  have exponent : target = e - d - (e - d - target).toNat := by omega
  have value := shiftLeft_value m (e - d - target).toNat (e - d)
  rw [← exponent, zpow_sub₀ two_ne_zero] at value
  have whole := Nat.div_add_mod (m <<< (e - d - target).toNat) n
  generalize m <<< (e - d - target).toNat = shifted at whole value ⊢
  have pos : (n : ℚ) ≠ 0 := Nat.cast_ne_zero.mpr hn.ne'
  have parts : ((shifted / n : Nat) : ℚ) + (shifted % n : Nat) / n = shifted / n := by
    rw [eq_div_iff pos, add_mul, div_mul_cancel₀ _ pos]
    exact_mod_cast (Nat.mul_comm _ _ ▸ whole : shifted / n * n + shifted % n = shifted)
  rw [parts, div_mul_eq_mul_div, value]
  field_simp

theorem apply_div (s t : Sign) : ((s / t).apply 1 : ℚ) = s.apply 1 / t.apply 1 := by
  have same : ((.negative : Sign) / .negative).apply 1 = 1 := rfl
  have left : ((.negative : Sign) / .positive).apply 1 = -1 := rfl
  have right : ((.positive : Sign) / .negative).apply 1 = -1 := rfl
  have none_ : ((.positive : Sign) / .positive).apply 1 = 1 := rfl
  have minus : Sign.negative.apply 1 = -1 := rfl
  have plus : Sign.positive.apply 1 = 1 := rfl
  cases s with
  | negative =>
      cases t with
      | negative => rw [same, minus]; norm_num
      | positive => rw [left, minus, plus]; norm_num
  | positive =>
      cases t with
      | negative => rw [right, minus, plus]; norm_num
      | positive => rw [none_, plus]; norm_num

/-- The quotient of two doubles is what the quotient of their values is rounded to. -/
theorem roundedTo_div {f g : UnpackedFloat} (hf : Canonical f) (hg : Canonical g)
    (ne : unpackedValue g ≠ 0) :
    RoundedTo (unpackedValue f / unpackedValue g) (div .binary64 f g) := by
  cases hg with
  | zero t => exact absurd rfl ne
  | @finite t n d pos' short' low' full' =>
      cases hf with
      | zero s =>
          have nothing : unpackedValue (.zero s) = 0 := rfl
          rw [nothing, zero_div]
          exact (Canonical.zero _).roundedTo
      | @finite s m e pos short low full =>
          obtain ⟨fraction, describes, exact_⟩ := divCore_value pos' m e d
          have quotient := roundedTo_roundWithAccuracy describes (divCore_long pos pos' e d) (s / t)
          rw [exact_, apply_div, div_mul_div_comm, ← mul_assoc, ← mul_assoc, ← apply_eq,
            ← apply_eq] at quotient
          exact quotient

/-! ### Products with one -/

theorem roundedTo_mul_one {f : UnpackedFloat} (h : Canonical f) :
    RoundedTo (unpackedValue f)
      (mul .binary64 f (.finite .positive (2 ^ 52) (-52) (by decide))) := by
  cases h with
  | zero s =>
      have product : mul .binary64 (.zero s) (.finite .positive (2 ^ 52) (-52) (by decide)) =
          .zero s := congrArg UnpackedFloat.zero (mul_positive s)
      rw [product]
      exact (Canonical.zero s).roundedTo
  | @finite s m e pos short low full =>
      have length := log2_shiftLeft pos 52
      have rounded := roundedTo_exact (m := m <<< 52) (e := e - (52 : Nat)) (by omega) s
      rw [apply_eq, mul_assoc, shiftLeft_value, ← mul_assoc, ← apply_eq,
        Nat.shiftLeft_eq] at rounded
      rw [mul, mul_positive]
      exact rounded

/-! ### Packing -/

/-- A significand of 53 bits is stored without its first bit. -/
theorem unpack_packedNormal (s : Sign) {m : Nat} {e : Int} (pos : 0 < m) (short : m < 2 ^ 53)
    (bits : m.log2 = 52) (low : -1074 ≤ e) (fits : ¬ 2047 ≤ (e + 1075).toNat) :
    unpack .binary64
        (packComponents .binary64 s (BitVec.ofNat 11 (e + 1075).toNat) (BitVec.ofNat 52 m)) =
      .finite s m e pos := by
  obtain ⟨kept, ne⟩ := toNat_biasedExponent fits
  have least : 2 ^ 52 ≤ m := bits ▸ Nat.log2_self_le pos.ne'
  have ne' : BitVec.ofNat 11 (e + 1075).toNat ≠ 0#11 := fun zero => by
    have : (e + 1075).toNat = 0 := kept.symm.trans (congrArg BitVec.toNat zero)
    omega
  have mantissa : (1#1 ++ BitVec.ofNat 52 m).toNat = m := by
    rw [toNat_implicitBit, BitVec.toNat_ofNat]
    omega
  rw [unpack_packComponents, if_neg ne, if_neg ne']
  simp only [mantissa, kept]
  congr 1
  omega

/-- A shorter significand is stored as it is, at the least exponent. -/
theorem unpack_packedSubnormal (s : Sign) {m : Nat} (pos : 0 < m) (less : m < 2 ^ 52) :
    unpack .binary64 (packComponents .binary64 s 0#11 (BitVec.ofNat 52 m)) =
      .finite s m (-1074) pos := by
  have mantissa : (BitVec.ofNat 52 m).toNat = m := by
    rw [BitVec.toNat_ofNat]
    omega
  have ne : BitVec.ofNat 52 m ≠ 0#52 := fun zero => by
    have : m = 0 := mantissa.symm.trans (congrArg BitVec.toNat zero)
    omega
  rw [unpack_packComponents, if_neg (by decide), if_pos rfl, dif_neg ne]
  simp only [mantissa]

theorem abs_unpackedValue_finite (s : Sign) (m : Nat) (e : Int) (pos : 0 < m) :
    |unpackedValue (.finite s m e pos)| = m * 2 ^ e := by
  have magnitude : |(s.apply m : ℚ)| = m := by
    rw [← Int.cast_abs, Int.abs_eq_natAbs, natAbs_apply]
    rfl
  rw [unpackedValue, abs_mul, abs_of_pos (by positivity : (0 : ℚ) < 2 ^ e), magnitude]

/-- Packing keeps a rounded double, or makes an infinity of one that is too large. -/
theorem repack_canonical {f : UnpackedFloat} (h : Canonical f) :
    repack f = f ∨ ((∃ s, repack f = .infinity s) ∧ 2 ^ 1024 ≤ |unpackedValue f|) := by
  cases h with
  | zero s =>
      left
      rw [repack, pack, unpack_packedZero]
  | @finite s m e pos short low full =>
      rw [repack, pack_finite, abs_unpackedValue_finite]
      split
      case isTrue large =>
          right
          have bits : m.log2 = 52 := full.resolve_right (by omega)
          have least : 2 ^ 52 ≤ m := bits ▸ Nat.log2_self_le pos.ne'
          refine ⟨⟨s, by rw [packedInfinity, unpack_packComponents]; rfl⟩, ?_⟩
          have exponent : (2 : ℚ) ^ 972 ≤ 2 ^ e := by
            rw [← zpow_natCast]
            exact zpow_le_zpow_right₀ one_le_two (by omega)
          have significand : (2 : ℚ) ^ 52 ≤ m := by exact_mod_cast least
          calc (2 : ℚ) ^ 1024 = 2 ^ 52 * 2 ^ 972 := by rw [← pow_add]
            _ ≤ (m : ℚ) * 2 ^ e := by gcongr
      case isFalse fits =>
          left
          split
          case isTrue bits => exact unpack_packedNormal s pos short bits low fits
          case isFalse bits =>
              obtain rfl : e = -1074 := full.resolve_left bits
              have less : m < 2 ^ 52 := by
                by_contra large
                exact bits ((Nat.log2_eq_iff pos.ne').mpr ⟨by omega, short⟩)
              exact unpack_packedSubnormal s pos less

/-- The parts of a packed finite double are in the form in which doubles are stored. -/
theorem canonical_unpack {b : BitVec Format.binary64.numBits}
    (h : (unpack .binary64 b).isFinite = true) : Canonical (unpack .binary64 b) := by
  rw [← packComponents_unpackSign_unpackExponent_unpackMantissa b, unpack_packComponents] at h ⊢
  generalize unpackExponent b = exponent at h ⊢
  generalize unpackMantissa b = mantissa at h ⊢
  split at h
  case isTrue =>
      split at h
      · cases h
      · cases h
  case isFalse ne =>
      rw [if_neg ne]
      split
      case isTrue =>
          split
          · exact .zero _
          · exact .finite (mantissa.isLt.trans (by decide)) (by decide) (.inr rfl)
      case isFalse ne' =>
          have bottom : exponent.toNat ≠ 0 := fun same => ne' (BitVec.eq_of_toNat_eq same)
          have bits := (1#1 ++ mantissa).isLt
          have implicit := toNat_implicitBit mantissa
          exact .finite bits (by omega) (.inl ((Nat.log2_eq_iff (by omega)).mpr ⟨by omega, bits⟩))

/-! ### Doubles -/

/-- The double is the nearest to a quantity, or an infinity that stands for a quantity too large for
a double. -/
structure Rounds (q : ℚ) (x : Float) : Prop where
  nearest : x.isFinite = true → Nearest q (value x)
  large : x.isFinite = false → (∃ s, x.toModel.unpack = .infinity s) ∧
    ∃ r, Nearest q r ∧ 2 ^ 1024 ≤ |r|

variable {x y : Float}

theorem rounds_of_unpack {q : ℚ} {f : UnpackedFloat} (h : RoundedTo q f)
    (same : x.toModel.unpack = repack f) : Rounds q x := by
  have finite : x.isFinite = (repack f).isFinite := congrArg UnpackedFloat.isFinite same
  rcases repack_canonical h.canonical with kept | ⟨⟨s, infinite⟩, large⟩
  · refine ⟨fun _ => ?_, fun none_ => ?_⟩
    · rw [value_eq, same, kept]
      exact h.nearest
    · rw [finite, kept] at none_
      cases h.canonical with
      | zero s => cases none_
      | finite short low full => cases none_
  · refine ⟨fun some_ => ?_, fun _ => ⟨⟨s, same.trans infinite⟩, _, h.nearest, large⟩⟩
    rw [finite, infinite] at some_
    cases some_

theorem canonical (h : x.isFinite = true) : Canonical x.toModel.unpack := canonical_unpack h

theorem representable_value (h : x.isFinite = true) : Representable (value x) := by
  rw [value_eq]
  exact (canonical h).representable

theorem abs_value_lt (h : x.isFinite = true) : |value x| < 2 ^ 1024 := by
  rw [value_eq]
  generalize parts : x.toModel.unpack = f at *
  have stored := parts ▸ canonical h
  cases stored with
  | zero s => simp [unpackedValue]
  | @finite s m e pos short low full =>
      have high := (unpack_bounds parts).2.2
      have exponent : (2 : ℚ) ^ e ≤ 2 ^ 971 := by
        rw [← zpow_natCast]
        exact zpow_le_zpow_right₀ one_le_two high
      have significand : (m : ℚ) < 2 ^ 53 := by exact_mod_cast short
      rw [abs_unpackedValue_finite]
      calc (m : ℚ) * 2 ^ e ≤ m * 2 ^ 971 := by gcongr
        _ < 2 ^ 53 * 2 ^ 971 := by gcongr
        _ = 2 ^ 1024 := by rw [← pow_add]

theorem rounds_add (hx : x.isFinite = true) (hy : y.isFinite = true) :
    Rounds (value x + value y) (x + y) := by
  rw [value_eq, value_eq]
  exact rounds_of_unpack (roundedTo_add (canonical hx) (canonical hy)) rfl

theorem rounds_div (hx : x.isFinite = true) (hy : y.isFinite = true) (ne : value y ≠ 0) :
    Rounds (value x / value y) (x / y) := by
  rw [value_eq] at ne
  rw [value_eq, value_eq]
  exact rounds_of_unpack (roundedTo_div (canonical hx) (canonical hy) ne) rfl

/-- Rounding keeps what a double can be. -/
theorem Rounds.of_representable {q : ℚ} (h : Rounds q x) (representable : Representable q)
    (small : |q| < 2 ^ 1024) : x.isFinite = true ∧ value x = q := by
  by_cases finite : x.isFinite = true
  · exact ⟨finite, (h.nearest finite).eq_of_representable representable⟩
  · obtain ⟨-, r, near, large⟩ := h.large (Bool.not_eq_true _ ▸ finite)
    rw [near.eq_of_representable representable] at large
    exact absurd small large.not_gt

/-- What is between two doubles is rounded to a finite double. -/
theorem Rounds.isFinite_of_between {q a b : ℚ} (h : Rounds q x) (ha : Representable a)
    (hb : Representable b) (smallA : |a| < 2 ^ 1024) (smallB : |b| < 2 ^ 1024) (lower : a ≤ q)
    (upper : q ≤ b) : x.isFinite = true := by
  by_contra infinite
  obtain ⟨-, r, near, large⟩ := h.large (Bool.not_eq_true _ ▸ infinite)
  have between := abs_le_max_abs_abs (near.le_of_le ha lower) (near.ge_of_ge hb upper)
  exact absurd (between.trans_lt (max_lt smallA smallB)) large.not_gt

/-- Doubles have every integer of 53 bits. -/
theorem representable_natCast {n : Nat} (h : n < 2 ^ 53) :
    Representable n ∧ |(n : ℚ)| < 2 ^ 1024 := by
  refine ⟨⟨n, 0, h, by decide, by simp⟩, ?_⟩
  rw [Nat.abs_cast]
  calc (n : ℚ) < 2 ^ 53 := by exact_mod_cast h
    _ < 2 ^ 1024 := pow_lt_pow_right₀ one_lt_two (by decide)

/-- A count is rounded to its double. -/
theorem rounds_ofNat (n : Nat) : Rounds n (Float.ofNat n) := by
  by_cases small : n < 2 ^ 53
  · have integer := roundedTo_normalize n 0 .positive
    rw [zpow_zero, mul_one, Int.cast_natCast] at integer
    obtain ⟨representable, bound⟩ := representable_natCast small
    have exact_ := integer.nearest.eq_of_representable representable
    have kept : repack (normalize .binary64 n 0 .positive) = normalize .binary64 n 0 .positive := by
      refine (repack_canonical integer.canonical).resolve_right fun large => ?_
      rw [exact_] at large
      exact absurd bound large.2.not_gt
    have product := roundedTo_mul_one integer.canonical
    rw [exact_] at product
    refine rounds_of_unpack product ?_
    rw [unpack_ofNat_small small, kept]
  · have bits := log2_shiftLeft (by omega : 0 < n) 53
    have rounded := roundedTo_exact (m := n <<< 53) (e := 0 - (53 : Nat)) (by omega) .positive
    rw [apply_eq, mul_assoc, shiftLeft_value, zpow_zero, mul_one, ← apply_eq] at rounded
    have quantity : (Sign.positive.apply n : ℚ) = n := Int.cast_natCast n
    rw [quantity] at rounded
    refine rounds_of_unpack rounded ?_
    rw [unpack_ofNat_large small, Nat.mul_one]
    rfl

/-! ### Shares -/

theorem isFinite_repack_div {f : UnpackedFloat} (h : f.isFinite = false) (g : UnpackedFloat) :
    (repack (div .binary64 f g)).isFinite = false := by
  have nan : (repack .notANumber).isFinite = false := by decide
  have infinity (s : Sign) : (repack (.infinity s)).isFinite = false := by
    rw [repack_infinity]
    rfl
  cases f with
  | zero s => cases h
  | finite s m e pos => cases h
  | notANumber => exact nan
  | infinity s =>
      cases g with
      | infinity t => exact nan
      | notANumber => exact nan
      | zero t => exact infinity _
      | finite t n d pos => exact infinity _

/-- A quotient is finite only if the dividend is. -/
theorem isFinite_of_div (h : (x / y).isFinite = true) : x.isFinite = true := by
  by_contra infinite
  have quotient := isFinite_repack_div (Bool.not_eq_true _ ▸ infinite) y.toModel.unpack
  exact absurd h (Bool.not_eq_true _ ▸ quotient)

/-- A finite double stays finite when it is shared out. -/
theorem isFinite_div_ofNat (hx : x.isFinite = true) {n : Nat} (pos : 0 < n) :
    (x / Float.ofNat n).isFinite = true := by
  have count := rounds_ofNat n
  by_cases finite : (Float.ofNat n).isFinite = true
  · have one : Representable 1 := ⟨1, 0, by decide, by decide, by simp⟩
    have least : 1 ≤ value (Float.ofNat n) :=
      (count.nearest finite).le_of_le one (by exact_mod_cast pos)
    have quotient := rounds_div hx finite (by linarith)
    have bound := abs_value_lt hx
    have smaller : |value x / value (Float.ofNat n)| ≤ |value x| := by
      rw [abs_div, abs_of_nonneg (by linarith : 0 ≤ value (Float.ofNat n))]
      exact div_le_self (abs_nonneg _) least
    have representable : Representable |value x| := by
      rcases abs_choice (value x) with same | same
      · rw [same]
        exact representable_value hx
      · rw [same]
        exact (representable_value hx).neg
    obtain ⟨below, above⟩ := abs_le.mp smaller
    exact quotient.isFinite_of_between representable.neg representable (by rwa [abs_neg, abs_abs])
      (by rwa [abs_abs]) below above
  · obtain ⟨⟨s, infinite⟩, -⟩ := count.large (Bool.not_eq_true _ ▸ finite)
    rw [isFinite_iff] at hx ⊢
    change (repack (div .binary64 x.toModel.unpack _)).isFinite = true
    rw [infinite]
    generalize x.toModel.unpack = f at hx
    cases f with
    | infinity s => cases hx
    | notANumber => cases hx
    | zero s =>
        change (repack (.zero _)).isFinite = true
        rw [repack, pack, unpack_packedZero]
        rfl
    | finite s m e pos =>
        change (repack (.zero _)).isFinite = true
        rw [repack, pack, unpack_packedZero]
        rfl

/-- A count that a double has is its own double. -/
theorem value_ofNat {n : Nat} (h : n < 2 ^ 53) :
    (Float.ofNat n).isFinite = true ∧ value (Float.ofNat n) = n :=
  (rounds_ofNat n).of_representable (representable_natCast h).1 (representable_natCast h).2

/-! ### Halves of sums -/

theorem Representable.double {q : ℚ} (h : Representable q) : Representable (2 * q) := by
  obtain ⟨m, e, short, low, rfl⟩ := h
  refine ⟨m, e + 1, short, by omega, ?_⟩
  rw [zpow_add_one₀ two_ne_zero]
  ring

/-- Half of the sum of two doubles lies where they do, if the sum is finite. -/
theorem half_sum_between {low high : Float} (hl : low.isFinite = true) (hh : high.isFinite = true)
    (hx : x.isFinite = true) (hy : y.isFinite = true) (fits : (x + y).isFinite = true)
    (xs : value low ≤ value x ∧ value x ≤ value high)
    (ys : value low ≤ value y ∧ value y ≤ value high) :
    value low ≤ value ((x + y) / Float.ofNat 2) ∧ value ((x + y) / Float.ofNat 2) ≤ value high := by
  have two : (Float.ofNat 2).isFinite = true ∧ value (Float.ofNat 2) = 2 := value_ofNat (by decide)
  have sum := (rounds_add hx hy).nearest fits
  have least := sum.le_of_le (representable_value hl).double (by linarith)
  have greatest := sum.ge_of_ge (representable_value hh).double (by linarith)
  have half := rounds_div fits two.1 (by rw [two.2]; norm_num)
  rw [two.2] at half
  have nearest := half.nearest (isFinite_div_ofNat fits (by decide))
  exact ⟨nearest.le_of_le (representable_value hl) (by linarith),
    nearest.ge_of_ge (representable_value hh) (by linarith)⟩

/-! ### Negation -/

theorem isFinite_neg (f : UnpackedFloat) : f.neg.isFinite = f.isFinite := by
  cases f with
  | _ => rfl

/-- A finite double changes the sign of its value with its own. -/
theorem value_neg (h : x.isFinite = true) : (-x).isFinite = true ∧ value (-x) = -value x := by
  have unpacked : (-x).toModel.unpack = repack x.toModel.unpack.neg := rfl
  have opposite := unpackedValue_neg x.toModel.unpack
  have small := abs_value_lt h
  rw [value_eq, ← abs_neg, ← opposite] at small
  have kept := (repack_canonical (canonical h).neg).resolve_right fun large => large.2.not_gt small
  refine ⟨?_, by rw [value_eq, unpacked, kept, opposite, ← value_eq]⟩
  rw [isFinite_iff, unpacked, kept, isFinite_neg]
  exact h

end SuiteMetrics.Decimal
